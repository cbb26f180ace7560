import InstrumentFlow.Asset.Json
import InstrumentFlow.Proofs.Json.Numbers
import InstrumentFlow.Proofs.Json.Layout

/-!
# Records in JSON come back

* `fields_ofMembers` -- an object gives the trees of its fields, whatever they hold;
* `list_some`, `list_none` -- a list is read exactly when all its elements are;
* `Kind.ofJson_toJson`, `Connection.ofJson_toJson`, …, `Component.ofJson_toJson` -- what holds no
  literals comes back in full, as long as enough brackets may be opened;
* `Kind.spelled_toJson`, …, `Component.spelled_toJson` -- and its tree has a text.
-/

namespace InstrumentFlow

namespace Shape

/-! ## 1. Objects and lists -/

/-- The members of an object, as a tree holds them. -/
abbrev held (members : List (String × Json)) : List (Option String × Json) :=
  members.map fun m => (some m.1, m.2)

section Objects

variable {members : List (String × Json)} {name key : String} {j : Json}

theorem member?_cons_self : member? key (held ((key, j) :: members)) = some j := by
  simp [member?]

theorem member?_cons_ne (different : name ≠ key) :
    member? name (held ((key, j) :: members)) = member? name (held members) := by
  simp [member?, Ne.symm different]

theorem filter_held_of_notMem (absent : name ∉ members.map (·.1)) :
    (held members).filter (·.1 == some name) = [] := by
  rw [List.filter_eq_nil_iff]
  intro m at_ same
  obtain ⟨m, inside, rfl⟩ := List.mem_map.mp at_
  exact absent (List.mem_map.mpr ⟨m, inside, by simpa using same⟩)

/-- No name occurs twice. -/
theorem length_filter_held_le_one (nodup : (members.map (·.1)).Nodup) (name : String) :
    ((held members).filter (·.1 == some name)).length ≤ 1 := by
  induction members with
  | nil => simp
  | cons m members ih =>
    rw [List.map_cons, List.nodup_cons] at nodup
    by_cases same : m.1 = name
    · have none_ := filter_held_of_notMem (same ▸ nodup.1)
      simp [held, same] at none_ ⊢
      grind
    · simpa [held, same] using ih nodup.2

theorem map_member?_held (nodup : (members.map (·.1)).Nodup) :
    (members.map (·.1)).map (member? · (held members)) = members.map (some ·.2) := by
  induction members with
  | nil => rfl
  | cons m members ih =>
    rw [List.map_cons, List.nodup_cons] at nodup
    rw [List.map_cons, List.map_cons, member?_cons_self, List.map_cons, ← ih nodup.2]
    refine congrArg _ (List.map_congr_left fun name inside => member?_cons_ne ?_)
    rintro rfl
    exact nodup.1 inside

/-- **The fields of a written record** are the trees of its members, in their order. -/
theorem fields_ofMembers {names : List String} (named : members.map (·.1) = names)
    (nodup : names.Nodup) (d : Nat) :
    fields names (d + 1) (.ofMembers members) = some (d, members.map (some ·.2)) := by
  subst named
  have fit : namesFit (members.map (·.1)) (held members) = true := by
    simp only [namesFit, Bool.and_eq_true, List.all_eq_true, decide_eq_true_eq]
    refine ⟨fun m at_ => ?_, fun name _ => length_filter_held_le_one nodup name⟩
    obtain ⟨m, -, rfl⟩ := List.mem_map.mp at_
    rfl
  simp only [fields, Json.ofMembers, descend]
  rw [if_pos fit, map_member?_held nodup]

end Objects

section Lists

variable {α β : Type} {shape : Shape β} {write : α → Json} {d : Nat}

theorem list_some (read : α → β) {xs : List α}
    (each : ∀ x ∈ xs, shape d (write x) = some (read x)) :
    list shape (d + 1) (.array (xs.map write)) = some (xs.map read) := by
  simp only [list, descend]
  induction xs with
  | nil => rfl
  | cons x xs ih =>
    simp [each x (by simp), ih fun y inside => each y (List.mem_cons_of_mem x inside)]

theorem list_none {xs : List α} {x : α} (inside : x ∈ xs) (lost : shape d (write x) = none) :
    list shape (d + 1) (.array (xs.map write)) = none := by
  simp only [list, descend]
  induction xs with
  | nil => simp at inside
  | cons y ys ih =>
    rcases List.mem_cons.mp inside with rfl | inside
    · simp [lost]
    · cases shape d (write y) <;> simp [ih inside]

theorem list_id {write : β → Json} (xs : List β) (each : ∀ x, shape d (write x) = some x) :
    list shape (d + 1) (.array (xs.map write)) = some xs := by
  simpa using list_some id fun x (_ : x ∈ xs) => each x

end Lists

/-! ## 2. Whole numbers -/

theorem integer_ofInt {low high i : Int} (atLeast : low ≤ i) (atMost : i ≤ high)
    (least : -(2 ^ 63) ≤ i) (greatest : i < 2 ^ 64) (d : Nat) :
    integer low high d (.ofInt i) = some i := by
  simp only [Json.ofInt_eq, integer, Json.integer?_integerSpelling least greatest]
  exact if_pos ⟨atLeast, atMost⟩

theorem word8_ofNat (d : Nat) (b : UInt8) : word8 d (.ofNat b.toNat) = some b := by
  have bound := b.toNat_lt
  rw [word8, Json.ofNat, integer_ofInt (by omega) (by change _ ≤ (255 : Int); omega) (by omega)
    (by omega)]
  simp

theorem word16_ofNat (d : Nat) (n : UInt16) : word16 d (.ofNat n.toNat) = some n := by
  have bound := n.toNat_lt
  rw [word16, Json.ofNat, integer_ofInt (by omega) (by change _ ≤ (65535 : Int); omega) (by omega)
    (by omega)]
  simp

theorem int32_ofInt (d : Nat) (i : Int32) : int32 d (.ofInt i.toInt) = some i := by
  have low := i.le_toInt
  have high := i.toInt_lt
  rw [int32, integer_ofInt (by change (-2147483648 : Int) ≤ _; omega)
    (by change _ ≤ (2147483647 : Int); omega) (by omega) (by omega)]
  simp

theorem byteList_read (d : Nat) (bytes : List UInt8) :
    list word8 (d + 1) (byteList bytes) = some bytes :=
  list_id bytes (word8_ofNat d)

end Shape

open Shape

/-! ## 3. Components -/

theorem Kind.ofJson_toJson (d : Nat) (k : Kind) : Kind.ofJson (d + 1) k.toJson = some k := by
  cases k with
  | host code =>
    simp [Kind.ofJson, Kind.toJson, choice, Json.ofMembers, descend, required, word16_ofNat]
  | _ => rfl

theorem Connection.ofJson_toJson (d : Nat) (c : Connection) :
    Connection.ofJson (d + 1) c.toJson = some c := by
  rw [Connection.ofJson, Connection.toJson, fields_ofMembers (by rfl) (by decide)]
  simp [required, word16_ofNat, boolean]

theorem Output.ofJson_toJson (d : Nat) (o : Output) : Output.ofJson (d + 3) o.toJson = some o := by
  rw [Output.ofJson, Output.toJson, fields_ofMembers (by rfl) (by decide)]
  simp [required, boolean, list_id o.connections (Connection.ofJson_toJson d)]

theorem Property.ofJson_toJson (d : Nat) (p : Property) :
    Property.ofJson (d + 2) p.toJson = some p := by
  rw [Property.ofJson, Property.toJson, fields_ofMembers (by rfl) (by decide)]
  simp [required, byteList_read]

theorem lenient_null {α : Type} (shape : Shape α) (d : Nat) :
    lenient shape d (some .null) = some none := rfl

theorem lenient_word16 (d : Nat) (n : UInt16) :
    lenient word16 d (some (.ofNat n.toNat)) = some (some n) := by
  have read := word16_ofNat d n
  rw [Json.ofNat, Json.ofInt_eq] at read ⊢
  simp [lenient, Shape.optional, read]

/-- **A component comes back** where five brackets may be opened. -/
theorem Component.ofJson_toJson (d : Nat) (c : Component) :
    Component.ofJson (d + 5) c.toJson = some c := by
  have inputs := list_id c.inputs (word16_ofNat (d + 3))
  rw [Component.ofJson, Component.toJson, fields_ofMembers (by rfl) (by decide)]
  obtain ⟨kind, breakpoint, _, properties, outputs, catchOutput, payload⟩ := c
  cases catchOutput <;>
    simp [required, boolean, Kind.ofJson_toJson, inputs, byteList_read, lenient_null,
      lenient_word16, list_id properties (Property.ofJson_toJson (d + 1)),
      list_id outputs (Output.ofJson_toJson d)]

/-! ## 4. Their texts -/

theorem Json.spelled_ofInt (i : Int) : Json.Spelled (.ofInt i) := Json.isNumber_integerSpelling i

theorem Json.spelled_ofNat (n : Nat) : Json.Spelled (.ofNat n) := Json.spelled_ofInt n

theorem Json.spelled_boolean (b : Bool) : Json.Spelled (.boolean b) := trivial

theorem Json.spelled_text (s : String) : Json.Spelled (.text s) := rfl

theorem Json.spelled_map {α : Type} {write : α → Json} (each : ∀ x, Json.Spelled (write x))
    (xs : List α) : Json.Spelled (.array (xs.map write)) := by
  rw [Json.Spelled, Json.spelledItems_iff]
  intro j at_
  obtain ⟨x, -, rfl⟩ := List.mem_map.mp at_
  exact each x

theorem spelled_byteList (bytes : List UInt8) : (byteList bytes).Spelled :=
  Json.spelled_map (fun b : UInt8 => Json.spelled_ofNat b.toNat) bytes

theorem Kind.spelled_toJson (k : Kind) : k.toJson.Spelled := by
  cases k with
  | host code =>
    rw [toJson, Json.spelled_ofMembers]
    simp [Json.spelled_ofNat]
  | _ => exact Json.spelled_text _

theorem Connection.spelled_toJson (c : Connection) : c.toJson.Spelled := by
  rw [toJson, Json.spelled_ofMembers]
  simp [Json.spelled_ofNat, Json.spelled_boolean]

theorem Output.spelled_toJson (o : Output) : o.toJson.Spelled := by
  rw [toJson, Json.spelled_ofMembers]
  simp [Json.spelled_map Connection.spelled_toJson, Json.spelled_boolean]

theorem Property.spelled_toJson (p : Property) : p.toJson.Spelled := by
  rw [toJson, Json.spelled_ofMembers]
  simp [spelled_byteList]

theorem Component.spelled_toJson (c : Component) : c.toJson.Spelled := by
  rw [toJson, Json.spelled_ofMembers]
  have inputs := Json.spelled_map (fun slot : UInt16 => Json.spelled_ofNat slot.toNat) c.inputs
  have noOutput : Json.Spelled .null := trivial
  cases c.catchOutput <;>
    simp [Kind.spelled_toJson, inputs, Json.spelled_map Property.spelled_toJson, noOutput,
      Json.spelled_map Output.spelled_toJson, Json.spelled_boolean, Json.spelled_ofNat,
      spelled_byteList]

end InstrumentFlow
