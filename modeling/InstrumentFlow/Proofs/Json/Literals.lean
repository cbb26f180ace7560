import InstrumentFlow.Proofs.Json.Numbers
import InstrumentFlow.Proofs.Json.Shapes

/-!
# Literals in JSON

What becomes of a literal that is written as JSON and read again.

* `Literal.brackets` -- how many brackets its tree opens, one inside the other;
* `Literal.leaves`, `Literal.mapLeaves` -- what stands in it that is no array;
* `Literal.respell?` -- what a number reads as after it was spelled: nothing where JSON has no
  spelling for it, and possibly its neighbour;
* `Literal.ofJson_toJson`, `Literal.ofJson_toJson_none` -- a literal comes back, with its numbers as
  their spellings read, exactly when its brackets may be opened and its numbers can be read.
-/

namespace InstrumentFlow

open Numeric Shape

namespace Literal

/-! ## 1. The shape of a literal -/

mutual

/-- **How many brackets** the tree of a literal opens, one inside the other: two for an array, one
    for any other content with a name. -/
def brackets : Literal → Nat
  | undefined => 0
  | null => 0
  | array items => 2 + bracketsList items
  | _ => 1

/-- The most brackets of any of them. -/
def bracketsList : List Literal → Nat
  | [] => 0
  | l :: ls => max l.brackets (bracketsList ls)

end

mutual

/-- What stands in a literal and is no array. -/
def leaves : Literal → List Literal
  | array items => leavesList items
  | l => [l]

def leavesList : List Literal → List Literal
  | [] => []
  | l :: ls => l.leaves ++ leavesList ls

end

mutual

/-- Changes what is no array. -/
def mapLeaves (f : Literal → Literal) : Literal → Literal
  | array items => array (mapLeavesList f items)
  | l => f l

def mapLeavesList (f : Literal → Literal) : List Literal → List Literal
  | [] => []
  | l :: ls => l.mapLeaves f :: mapLeavesList f ls

end

theorem bracketsList_le {ls : List Literal} {n : Nat} :
    bracketsList ls ≤ n ↔ ∀ l ∈ ls, l.brackets ≤ n := by
  induction ls with
  | nil => simp [bracketsList]
  | cons l ls ih => rw [bracketsList, Nat.max_le, ih, List.forall_mem_cons]

theorem leavesList_eq (ls : List Literal) : leavesList ls = ls.flatMap leaves := by
  induction ls with
  | nil => rfl
  | cons l ls ih => rw [leavesList, ih, List.flatMap_cons]

theorem mapLeavesList_eq (f : Literal → Literal) (ls : List Literal) :
    mapLeavesList f ls = ls.map (mapLeaves f) := by
  induction ls with
  | nil => rfl
  | cons l ls ih => rw [mapLeavesList, ih, List.map_cons]

theorem toJsonList_eq (ls : List Literal) : toJsonList ls = ls.map toJson := by
  induction ls with
  | nil => rfl
  | cons l ls ih => rw [toJsonList, ih, List.map_cons]

/-! ## 2. Numbers after their spelling -/

/-- **What a literal that is no array reads as** after it was written. -/
def respell? : Literal → Option Literal
  | float x => (single 0 (.ofBinary Json.singleLayout x)).map float
  | double x => (Shape.double 0 (.ofBinary Json.doubleLayout x)).map double
  | l => some l

/-- The same, where it reads as something. -/
def respell (l : Literal) : Literal := l.respell?.getD l

/-- There is no spelling for the infinities and for no number. -/
theorem respell?_float_of_not_finite {x : Binary32} (infinite : x.isFinite = false) :
    (float x).respell? = none := by
  simp [respell?, Json.ofBinary, infinite, single]

/-! ## 3. Reading what was written -/

/-- A literal can be read where so many brackets may be opened. -/
def Legible (d : Nat) (l : Literal) : Prop :=
  l.brackets ≤ d ∧ ∀ leaf ∈ l.leaves, leaf.respell?.isSome

theorem ofJson_named (d : Nat) {name : String} (noArray : name ≠ "Array") (content : Json) :
    Literal.ofJson d (.ofMembers [(name, content)])
      = descend d fun d => ofPlainChoice d name (some content) := by
  rw [Json.ofMembers, List.map_cons, List.map_nil, Literal.ofJson]
  · cases d <;> simp [choice, descend]
  · rintro items ⟨⟩
    exact noArray rfl

theorem ofJsonList_eq (d : Nat) (items : List Json) :
    Literal.ofJsonList d items = items.mapM (Literal.ofJson d) := by
  induction items with
  | nil => simp [Literal.ofJsonList]
  | cons j js ih =>
    rw [Literal.ofJsonList, ih, List.mapM_cons]
    cases Literal.ofJson d j <;> cases js.mapM (Literal.ofJson d) <;> rfl

theorem ofJson_array (d : Nat) (items : List Literal) :
    Literal.ofJson d (array items).toJson
      = descend d fun d => (list Literal.ofJson d (.array (items.map toJson))).map .array := by
  rw [toJson, Json.ofMembers, List.map_cons, List.map_nil, Literal.ofJson, toJsonList_eq]
  congr 1
  funext d
  cases d with
  | zero => rfl
  | succ d => simp [descend, list, ofJsonList_eq]

theorem single_depth (d : Nat) (j : Json) : single d j = single 0 j := by
  cases j <;> rfl

theorem double_depth (d : Nat) (j : Json) : Shape.double d j = Shape.double 0 j := by
  cases j <;> rfl

/-- A literal other than an array is read where its bracket may be opened. -/
theorem ofJson_leaf {l : Literal} (noArray : ∀ items, l ≠ array items) (d : Nat) :
    Literal.ofJson d l.toJson = if l.brackets ≤ d then l.respell? else none := by
  cases l with
  | undefined => simp [toJson, Literal.ofJson, Json.text, choice, ofPlainChoice, isEmptyContent,
      brackets, respell?]
  | null => simp [toJson, Literal.ofJson, Json.text, choice, ofPlainChoice, isEmptyContent,
      brackets, respell?]
  | int i =>
    rw [toJson, ofJson_named d (by decide)]
    cases d <;> simp [descend, ofPlainChoice, required, int32_ofInt, brackets, respell?]
  | float x =>
    rw [toJson, ofJson_named d (by decide)]
    cases d with
    | zero => simp [descend, brackets]
    | succ d => simp [descend, ofPlainChoice, required, brackets, respell?, single_depth d]
  | double x =>
    rw [toJson, ofJson_named d (by decide)]
    cases d with
    | zero => simp [descend, brackets]
    | succ d => simp [descend, ofPlainChoice, required, brackets, respell?, double_depth d]
  | boolean b =>
    rw [toJson, ofJson_named d (by decide)]
    cases d <;> simp [descend, ofPlainChoice, required, Shape.boolean, brackets, respell?]
  | string s =>
    rw [toJson, ofJson_named d (by decide)]
    cases d <;> simp [descend, ofPlainChoice, required, Json.text, text, brackets, respell?]
  | array items => exact absurd rfl (noArray items)

theorem leaves_leaf {l : Literal} (noArray : ∀ items, l ≠ array items) : l.leaves = [l] := by
  cases l with
  | array items => exact absurd rfl (noArray items)
  | _ => rfl

theorem mapLeaves_leaf {l : Literal} (noArray : ∀ items, l ≠ array items)
    (f : Literal → Literal) : l.mapLeaves f = f l := by
  cases l with
  | array items => exact absurd rfl (noArray items)
  | _ => rfl

/-- An array can be read where its two brackets may be opened and its elements can be read
    inside. -/
theorem legible_array {d : Nat} {items : List Literal} :
    (array items).Legible (d + 2) ↔ ∀ l ∈ items, l.Legible d := by
  rw [Legible, brackets, leaves, leavesList_eq]
  have inside : 2 + bracketsList items ≤ d + 2 ↔ ∀ l ∈ items, l.brackets ≤ d := by
    rw [← bracketsList_le]
    omega
  simp only [inside, Legible, List.mem_flatMap]
  grind

/-- **A literal comes back**, with its numbers as their spellings read, **exactly where it is
    legible.** -/
theorem ofJson_toJson (l : Literal) (d : Nat) :
    (l.Legible d → Literal.ofJson d l.toJson = some (l.mapLeaves respell)) ∧
      (¬ l.Legible d → Literal.ofJson d l.toJson = none) := by
  by_cases isArray : ∃ items, l = array items
  · obtain ⟨items, same⟩ := isArray
    subst same
    rw [ofJson_array, mapLeaves, mapLeavesList_eq]
    match d with
    | 0 => simp [Legible, brackets, descend]
    | 1 =>
      have deep : ¬ (array items).Legible 1 := fun legible => by
        have := legible.1
        simp only [brackets] at this
        omega
      simp [deep, descend, list]
    | d + 2 =>
      have each : ∀ l ∈ items,
          (l.Legible d → Literal.ofJson d l.toJson = some (l.mapLeaves respell)) ∧
            (¬ l.Legible d → Literal.ofJson d l.toJson = none) :=
        fun l inside => ofJson_toJson l d
      rw [legible_array, descend]
      refine ⟨fun legible => ?_, fun illegible => ?_⟩
      · rw [list_some (mapLeaves respell) fun l inside => (each l inside).1 (legible l inside)]
        rfl
      · obtain ⟨l, inside, lost⟩ : ∃ l ∈ items, ¬ l.Legible d := by simpa using illegible
        rw [list_none inside ((each l inside).2 lost)]
        rfl
  · have noArray : ∀ items, l ≠ array items := fun items same => isArray ⟨items, same⟩
    rw [ofJson_leaf noArray, mapLeaves_leaf noArray, Legible, leaves_leaf noArray]
    simp only [List.mem_singleton, forall_eq]
    split
    · next shallow =>
      cases back : l.respell? <;> simp [shallow, respell, back]
    · next deep => simp [deep]
termination_by sizeOf l
decreasing_by
  have smaller := List.sizeOf_lt_of_mem inside
  simp_all
  omega

/-! ## 4. Texts and equality -/

theorem spelled_ofBinary {l : Numeric.Layout} (keeps : l.keepsFraction = true) {f : Format}
    (common : f.Common) (x : Binary f) : (Json.ofBinary l x).Spelled := by
  rw [Json.ofBinary]
  split
  · next finite => exact Json.isNumber_text keeps common finite
  · trivial

mutual

/-- The tree of a literal has a text. -/
theorem spelled_toJson (l : Literal) : l.toJson.Spelled := by
  match l with
  | undefined => exact Json.spelled_text _
  | null => exact Json.spelled_text _
  | int i =>
    rw [toJson, Json.spelled_ofMembers]
    simp [Json.spelled_ofInt]
  | float x =>
    rw [toJson, Json.spelled_ofMembers]
    simpa using spelled_ofBinary (l := Json.singleLayout) rfl Format.common_single x
  | double x =>
    rw [toJson, Json.spelled_ofMembers]
    simpa using spelled_ofBinary (l := Json.doubleLayout) rfl Format.common_double x
  | boolean b =>
    rw [toJson, Json.spelled_ofMembers]
    simp [Json.spelled_boolean]
  | string s =>
    rw [toJson, Json.spelled_ofMembers]
    simp [Json.spelled_text]
  | array items =>
    rw [toJson, Json.spelled_ofMembers]
    simpa [Json.Spelled] using spelledItems_toJsonList items

theorem spelledItems_toJsonList (ls : List Literal) : Json.SpelledItems (toJsonList ls) := by
  match ls with
  | [] => trivial
  | l :: ls => exact ⟨spelled_toJson l, spelledItems_toJsonList ls⟩

end

mutual

/-- Two literals that differ in nothing but their leaves are the same exactly when these are. -/
theorem same_mapLeaves (f : Literal → Literal) (l : Literal) :
    l.same (l.mapLeaves f) = true ↔ ∀ leaf ∈ l.leaves, leaf.same (f leaf) = true := by
  match l with
  | array items =>
    rw [mapLeaves, same, leaves]
    exact sameList_mapLeavesList f items
  | undefined | null | int _ | float _ | double _ | boolean _ | string _ =>
    simp [mapLeaves, leaves]

theorem sameList_mapLeavesList (f : Literal → Literal) (ls : List Literal) :
    sameList ls (mapLeavesList f ls) = true
      ↔ ∀ leaf ∈ leavesList ls, leaf.same (f leaf) = true := by
  match ls with
  | [] => simp [mapLeavesList, leavesList, sameList]
  | l :: ls =>
    have head := same_mapLeaves f l
    have tail := sameList_mapLeavesList f ls
    rw [mapLeavesList, sameList, leavesList, Bool.and_eq_true, head, tail]
    simp [or_imp, forall_and]

end

end Literal

end InstrumentFlow
