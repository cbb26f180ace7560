import InstrumentFlow.Proofs.Value.Plain
import InstrumentFlow.Scpi.Answer
import Mathlib.Logic.Relation

/-!
# Fair values

What may stand in a slot, a variable or an element depends on what the host may hand in. The write
targets that it does not hand in are never stored, and where it hands in no arrays of others every
array that is stored has its storage.

* `Terms`, `lawless` -- what the host keeps from doing;
* `Fair`, `Heap.AllFair` -- a value that may be stored under these terms, and storages of such
  values;
* `fair_of_bare` -- a value that leads to no storage and names no place may always be stored;
* `Heap.Grown` -- the storages after some were added, each with fair elements;
* `Literal.materialize_fair`, `Given.place_fair` -- where values come from;
* `coerce_fair` -- what is made of them.
-/

namespace InstrumentFlow

/-! ## 1. Terms -/

/-- **What the host keeps from doing.** -/
structure Terms where
  /-- The write targets that it does not hand in; all of them lead to storage. -/
  barred : Value → Prop
  names : ∀ v, barred v → ¬ v.Plain
  /-- It hands in no arrays but those that it writes out. -/
  noArrays : Prop
  /-- It does not write global variables. -/
  noGlobals : Prop

/-- The terms of a host that does whatever it likes. -/
def lawless : Terms := ⟨fun _ => False, fun _ => False.elim, False, False⟩

/-- It hands in no write targets that lead to storage. -/
def Terms.noPlaces (T : Terms) : Prop := ∀ v : Value, ¬ v.Plain → T.barred v

namespace Value

/-- The storage that the value leads to, if any, is there. -/
def Known (h : Heap) (v : Value) : Prop := ∀ a, v.handle? = some a → a.index < h.cells.size

theorem Known.mono {h h' : Heap} {v : Value} (hv : v.Known h)
    (hle : h.cells.size ≤ h'.cells.size) : v.Known h' :=
  fun a ha => Nat.lt_of_lt_of_le (hv a ha) hle

end Value

/-- **The value may be stored**: it is no write target that the host does not hand in, and its array
    is there where the host hands in none of others. -/
structure Fair (T : Terms) (h : Heap) (v : Value) : Prop where
  known : T.noArrays → v.Known h
  allowed : ¬ T.barred v

/-- Where the host hands in no write targets it names no place. -/
theorem Fair.plain {T : Terms} {h : Heap} {v : Value} (hv : Fair T h v) (hn : T.noPlaces) :
    v.Plain :=
  Decidable.byContradiction fun hplace => hv.allowed (hn v hplace)

theorem fair_of_bare {T : Terms} {h : Heap} {v : Value} (hv : v.Bare) : Fair T h v where
  known _ a ha := by
    rw [hv.handle] at ha
    cases ha
  allowed hb := T.names v hb hv.plain

theorem Fair.mono {T : Terms} {h h' : Heap} {v : Value} (hv : Fair T h v)
    (hle : h.cells.size ≤ h'.cells.size) : Fair T h' v :=
  ⟨fun hn => (hv.known hn).mono hle, hv.allowed⟩

/-! ## 2. Storages -/

namespace Heap

/-- All elements of all storages may be stored. -/
def AllFair (T : Terms) (h : Heap) : Prop := ∀ a, ∀ v ∈ h.elements a, Fair T h v

/-- A storage is added, whose elements may be stored. -/
def Allots (T : Terms) (h h' : Heap) : Prop :=
  ∃ elements, (∀ v ∈ elements, Fair T h v) ∧ h' = (h.allocate elements).2

/-- **Storages are added**, each with elements that may be stored. -/
abbrev Grown (T : Terms) : Heap → Heap → Prop := Relation.ReflTransGen (Allots T)

variable {T : Terms} {h h' : Heap}

theorem size_allocate (h : Heap) (elements : Array Value) :
    (h.allocate elements).2.cells.size = h.cells.size + 1 := by
  simp [allocate]

/-- Where there is no storage there are no elements. -/
theorem elements_of_le {a : ArrayId} (ha : h.cells.size ≤ a.index) : h.elements a = #[] := by
  unfold elements
  rw [Array.getElem?_eq_none ha]
  rfl

theorem index_lt_of_mem {a : ArrayId} {v : Value} (hv : v ∈ h.elements a) :
    a.index < h.cells.size := by
  refine Nat.lt_of_not_le fun hle => ?_
  rw [elements_of_le hle] at hv
  exact Array.not_mem_empty v hv

theorem size_write (h : Heap) (a : ArrayId) (index : Nat) (v : Value) :
    (h.write a index v).cells.size = h.cells.size := Array.size_modify

theorem elements_write (h : Heap) (a b : ArrayId) (index : Nat) (v : Value) :
    (h.write a index v).elements b
      = if b = a then (h.elements a).setIfInBounds index v else h.elements b := by
  unfold write elements
  rw [Array.getElem?_modify]
  by_cases hb : b = a
  · subst hb
    rw [if_pos rfl, if_pos rfl]
    cases h.cells[b.index]? <;> rfl
  · have hne : a.index ≠ b.index := fun he => hb (by cases a; cases b; exact congrArg _ he.symm)
    rw [if_neg hne, if_neg hb]

theorem size_elements_write (h : Heap) (a b : ArrayId) (index : Nat) (v : Value) :
    ((h.write a index v).elements b).size = (h.elements b).size := by
  rw [elements_write]
  split
  · next hb => rw [hb, Array.size_setIfInBounds]
  · rfl

theorem AllFair.allots (hh : h.AllFair T) (ha : h.Allots T h') : h'.AllFair T := by
  obtain ⟨elements, hfair, rfl⟩ := ha
  have hle : h.cells.size ≤ (h.allocate elements).2.cells.size := by
    rw [size_allocate]
    exact Nat.le_succ _
  intro a v hv
  rw [elements_allocate] at hv
  split at hv
  · exact (hfair v hv).mono hle
  · exact (hh a v hv).mono hle

theorem AllFair.write (hh : h.AllFair T) (a : ArrayId) (index : Nat) {v : Value}
    (hv : Fair T h v) : (h.write a index v).AllFair T := by
  have hle : h.cells.size ≤ (h.write a index v).cells.size := Nat.le_of_eq (size_write ..).symm
  intro b w hw
  rw [elements_write] at hw
  split at hw
  · rcases Array.mem_or_eq_of_mem_setIfInBounds hw with hw | rfl
    · exact (hh a w hw).mono hle
    · exact hv.mono hle
  · exact (hh b w hw).mono hle

theorem allFair_empty : ({} : Heap).AllFair T := fun _ _ hv => by simp [elements] at hv

namespace Grown

theorem allFair (hg : h.Grown T h') (hh : h.AllFair T) : h'.AllFair T := by
  induction hg with
  | refl => exact hh
  | tail _ ha ih => exact ih.allots ha

theorem size_le (hg : h.Grown T h') : h.cells.size ≤ h'.cells.size := by
  induction hg with
  | refl => exact Nat.le_refl _
  | tail _ ha ih =>
    obtain ⟨elements, _, rfl⟩ := ha
    rw [size_allocate]
    exact Nat.le_succ_of_le ih

/-- What was there before keeps its elements. -/
theorem elements_eq (hg : h.Grown T h') {a : ArrayId} (ha : a.index < h.cells.size) :
    h'.elements a = h.elements a := by
  induction hg with
  | refl => rfl
  | tail hg hallots ih =>
    obtain ⟨elements, _, rfl⟩ := hallots
    have hle := size_le hg
    rw [elements_allocate, if_neg (by omega), ih]

theorem size_elements_le (hg : h.Grown T h') (a : ArrayId) :
    (h.elements a).size ≤ (h'.elements a).size := by
  by_cases ha : a.index < h.cells.size
  · exact Nat.le_of_eq (congrArg Array.size (elements_eq hg ha).symm)
  · rw [elements_of_le (Nat.le_of_not_lt ha)]
    exact Nat.zero_le _

end Grown

end Heap

/-! ## 3. Where values come from -/

section

variable {T : Terms}

/-- A list of values that may be stored gets a storage. -/
theorem Heap.Grown.allocate {h h' : Heap} (hg : h.Grown T h') {vs : List Value}
    (hvs : ∀ v ∈ vs, Fair T h' v) :
    h.Grown T (h'.allocate vs.toArray).2
      ∧ Fair T (h'.allocate vs.toArray).2 (.array (h'.allocate vs.toArray).1) := by
  refine ⟨hg.tail ⟨_, fun v hv => hvs v (by simpa using hv), rfl⟩, fun _ a ha => ?_,
    fun hb => T.names _ hb rfl⟩
  cases ha
  rw [Heap.size_allocate]
  exact Nat.lt_succ_self _

mutual

/-- **The value of a literal may be stored**, and so may what stands in its arrays. -/
theorem Literal.materialize_fair : ∀ (l : Literal) (h : Heap),
    h.Grown T (l.materialize h).2 ∧ Fair T (l.materialize h).2 (l.materialize h).1
  | .undefined, h | .null, h | .int _, h | .float _, h | .double _, h | .boolean _, h
  | .string _, h => by
    unfold Literal.materialize
    exact ⟨.refl, fair_of_bare ⟨rfl, rfl⟩⟩
  | .array items, h => by
    unfold Literal.materialize
    obtain ⟨hg, hvs⟩ := Literal.materializeList_fair items h
    exact hg.allocate hvs

theorem Literal.materializeList_fair : ∀ (ls : List Literal) (h : Heap),
    h.Grown T (Literal.materializeList ls h).2
      ∧ ∀ v ∈ (Literal.materializeList ls h).1, Fair T (Literal.materializeList ls h).2 v
  | [], h => by
    unfold Literal.materializeList
    exact ⟨.refl, fun v hv => nomatch hv⟩
  | l :: ls, h => by
    unfold Literal.materializeList
    obtain ⟨hg, hv⟩ := Literal.materialize_fair l h
    obtain ⟨hgs, hvs⟩ := Literal.materializeList_fair ls (l.materialize h).2
    refine ⟨hg.trans hgs, fun w hw => ?_⟩
    rcases List.mem_cons.mp hw with rfl | hw
    · exact hv.mono hgs.size_le
    · exact hvs w hw

end

/-- **The host may hand in the value.** -/
structure Offered (T : Terms) (v : Value) : Prop where
  handle : T.noArrays → v.handle? = none
  allowed : ¬ T.barred v

theorem Offered.fair {v : Value} (hv : Offered T v) (h : Heap) : Fair T h v where
  known hn a ha := by
    rw [hv.handle hn] at ha
    cases ha
  allowed := hv.allowed

namespace Given

mutual

/-- The host keeps to the terms with what it writes down; `kept` answers for names. -/
def Meets (T : Terms) (kept : String → Value) : Given → Prop
  | plain v => Offered T v
  | array items => AllMeet T kept items
  | element _ g => (∀ a n, ¬ T.barred (.element a n)) ∧ g.Meets T kept
  | .kept name => Offered T (kept name)

def AllMeet (T : Terms) (kept : String → Value) : List Given → Prop
  | [] => True
  | g :: gs => g.Meets T kept ∧ AllMeet T kept gs

end

mutual

/-- **What a host writes down may be stored**, if it keeps to the terms. -/
theorem place_fair {kept : String → Value} : ∀ (g : Given) (h : Heap), g.Meets T kept →
    h.Grown T (g.place kept h).2 ∧ Fair T (g.place kept h).2 (g.place kept h).1
  | .plain v, h, hg => by
    unfold Meets at hg
    unfold place
    exact ⟨.refl, hg.fair h⟩
  | .kept name, h, hg => by
    unfold Meets at hg
    unfold place
    exact ⟨.refl, hg.fair h⟩
  | .array items, h, hg => by
    unfold Meets at hg
    unfold place
    obtain ⟨hgrown, hvs⟩ := placeList_fair items h hg
    exact hgrown.allocate hvs
  | .element index g, h, hg => by
    unfold Meets at hg
    unfold place
    obtain ⟨hgrown, hv⟩ := place_fair g h hg.2
    dsimp only
    split
    · next a ha =>
      rw [ha] at hv
      exact ⟨hgrown, fun hn b hb => hv.known hn b hb, hg.1 _ _⟩
    · exact ⟨hgrown, fair_of_bare ⟨rfl, rfl⟩⟩

theorem placeList_fair {kept : String → Value} : ∀ (gs : List Given) (h : Heap),
    AllMeet T kept gs →
    h.Grown T (placeList kept gs h).2
      ∧ ∀ v ∈ (placeList kept gs h).1, Fair T (placeList kept gs h).2 v
  | [], h, _ => by
    unfold placeList
    exact ⟨.refl, fun v hv => nomatch hv⟩
  | g :: gs, h, hg => by
    unfold AllMeet at hg
    unfold placeList
    obtain ⟨hgrown, hv⟩ := place_fair g h hg.1
    obtain ⟨hgrowns, hvs⟩ := placeList_fair gs (g.place kept h).2 hg.2
    refine ⟨hgrown.trans hgrowns, fun w hw => ?_⟩
    rcases List.mem_cons.mp hw with rfl | hw
    · exact hv.mono hgrowns.size_le
    · exact hvs w hw

end

end Given

/-- What an instrument answers leads to no storage. -/
theorem Scpi.answerValue_bare (answer : String) : (Scpi.answerValue answer).Bare := by
  unfold Scpi.answerValue
  dsimp only
  split
  · exact ⟨rfl, rfl⟩
  · split
    · exact ⟨rfl, rfl⟩
    · split
      · exact ⟨rfl, rfl⟩
      · split
        · exact ⟨rfl, rfl⟩
        · exact ⟨rfl, rfl⟩

/-! ## 4. What is made of values -/

theorem coerce_fair {h : Heap} {prior v w : Value} (hv : Fair T h v)
    (hw : coerce h prior v = some w) : Fair T h w := by
  rcases coerce_cases hw with hbare | rfl
  · exact fair_of_bare hbare
  · exact hv

end

end InstrumentFlow
