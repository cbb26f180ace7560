import InstrumentFlow.Engine.Propagation
import InstrumentFlow.Expression.Operate
import InstrumentFlow.Value.Basic

/-!
# Values that name no place

* `Value.namesPlace` -- the write targets that lead to storage: all but the outputs of a component;
* `Value.Plain`, `Heap.Plain` -- values that name no place, and storages of such values;
* `Value.handle?`, `Value.Bare` -- values that lead to no storage either;
* `Value.Within` -- a value that names no slot but local variables of one instance;
* `Literal.materialize_plain`, `Given.place_plain` -- where values come from;
* `coerce_plain`, `Expression.unary_bare`, `binary_bare` -- what is made of them;
* `Heap.same?_isUndefined` -- a value that counts as the same is there if the other one is.
-/

namespace InstrumentFlow

/-! ## 1. Plain values and storages -/

/-- The value leads to a place where something is stored. -/
def Value.namesPlace : Value → Bool
  | slot _ _ | global _ | native _ | element _ _ => true
  | _ => false

/-- The value names no place. -/
def Value.Plain (v : Value) : Prop := v.namesPlace = false

instance (v : Value) : Decidable v.Plain := inferInstanceAs (Decidable (_ = _))

namespace Value

/-- The storage that a value leads to. -/
def handle? : Value → Option ArrayId
  | array a | element a _ => some a
  | _ => none

/-- **The value leads to no storage and names no place.** -/
structure Bare (v : Value) : Prop where
  handle : v.handle? = none
  plain : v.Plain

end Value

/-- All elements of all storages are plain. -/
def Heap.Plain (h : Heap) : Prop := ∀ a, ∀ v ∈ h.elements a, v.Plain

/-- If the value names a slot, it is a local variable of the instance `i`, which has `inputs`
    inputs. -/
def Value.Within (i : InstanceId) (inputs : Nat) (v : Value) : Prop :=
  ∀ j n, v = .slot j n → j = i ∧ inputs ≤ n

theorem Value.Plain.within {v : Value} (h : v.Plain) (i : InstanceId) (inputs : Nat) :
    v.Within i inputs := by
  rintro j n rfl
  cases h

namespace Heap

theorem elements_allocate (h : Heap) (elements : Array Value) (a : ArrayId) :
    (h.allocate elements).2.elements a
      = if a.index = h.cells.size then elements else h.elements a := by
  unfold allocate Heap.elements
  rw [Array.getElem?_push]
  split <;> rfl

theorem Plain.allocate {h : Heap} (hh : h.Plain) {elements : Array Value}
    (he : ∀ v ∈ elements, v.Plain) : (h.allocate elements).2.Plain := by
  intro a v hv
  rw [elements_allocate] at hv
  split at hv
  · exact he v hv
  · exact hh a v hv

theorem Plain.write {h : Heap} (hh : h.Plain) (a : ArrayId) (index : Nat) {v : Value}
    (hv : v.Plain) : (h.write a index v).Plain := by
  intro b w hw
  unfold Heap.write Heap.elements at hw
  rw [Array.getElem?_modify] at hw
  have hb := hh b
  unfold Heap.elements at hb
  split at hw
  · cases hc : h.cells[b.index]? with
    | none => simp [hc] at hw
    | some cell =>
      rw [hc] at hw hb
      rcases Array.mem_or_eq_of_mem_setIfInBounds hw with hw | rfl
      · exact hb w hw
      · exact hv
  · exact hb w hw

theorem plain_empty : ({} : Heap).Plain := by
  intro a v hv
  simp [Heap.elements] at hv

end Heap

/-! ## 2. Where values come from -/

mutual

/-- The value of a literal is plain. -/
theorem Literal.materialize_plain : ∀ (l : Literal) {h : Heap}, h.Plain →
    (l.materialize h).1.Plain ∧ (l.materialize h).2.Plain
  | .undefined, _, hh | .null, _, hh | .int _, _, hh | .float _, _, hh | .double _, _, hh
  | .boolean _, _, hh | .string _, _, hh => by
    unfold Literal.materialize
    exact ⟨rfl, hh⟩
  | .array items, h, hh => by
    unfold Literal.materialize
    obtain ⟨hvs, hh'⟩ := Literal.materializeList_plain items hh
    exact ⟨rfl, hh'.allocate fun v hv => hvs v (by simpa using hv)⟩

theorem Literal.materializeList_plain : ∀ (ls : List Literal) {h : Heap}, h.Plain →
    (∀ v ∈ (Literal.materializeList ls h).1, v.Plain) ∧ (Literal.materializeList ls h).2.Plain
  | [], h, hh => by
    unfold Literal.materializeList
    exact ⟨fun v hv => (nomatch hv), hh⟩
  | l :: ls, h, hh => by
    unfold Literal.materializeList
    obtain ⟨hv, hh'⟩ := Literal.materialize_plain l hh
    obtain ⟨hvs, hh''⟩ := Literal.materializeList_plain ls hh'
    refine ⟨fun w hw => ?_, hh''⟩
    rcases List.mem_cons.mp hw with rfl | hw
    · exact hv
    · exact hvs w hw

end

namespace Given

mutual

/-- A host writes the value down itself and names no place in it. -/
def IsPlain : Given → Prop
  | plain v => v.Plain
  | array items => AllPlain items
  | element _ _ | kept _ => False

def AllPlain : List Given → Prop
  | [] => True
  | g :: gs => g.IsPlain ∧ AllPlain gs

end

mutual

theorem place_plain (kept : String → Value) : ∀ (g : Given) {h : Heap}, g.IsPlain → h.Plain →
    (g.place kept h).1.Plain ∧ (g.place kept h).2.Plain
  | .plain v, h, hg, hh => by
    unfold IsPlain at hg
    unfold place
    exact ⟨hg, hh⟩
  | .array items, h, hg, hh => by
    unfold IsPlain at hg
    unfold place
    obtain ⟨hvs, hh'⟩ := placeList_plain kept items hg hh
    exact ⟨rfl, hh'.allocate fun v hv => hvs v (by simpa using hv)⟩
  | .element _ _, _, hg, _ | .kept _, _, hg, _ => by
    unfold IsPlain at hg
    exact hg.elim

theorem placeList_plain (kept : String → Value) : ∀ (gs : List Given) {h : Heap},
    AllPlain gs → h.Plain →
    (∀ v ∈ (placeList kept gs h).1, v.Plain) ∧ (placeList kept gs h).2.Plain
  | [], h, _, hh => by
    unfold placeList
    exact ⟨fun v hv => (nomatch hv), hh⟩
  | g :: gs, h, hg, hh => by
    unfold AllPlain at hg
    unfold placeList
    obtain ⟨hv, hh'⟩ := place_plain kept g hg.1 hh
    obtain ⟨hvs, hh''⟩ := placeList_plain kept gs hg.2 hh'
    refine ⟨fun w hw => ?_, hh''⟩
    rcases List.mem_cons.mp hw with rfl | hw
    · exact hv
    · exact hvs w hw

end

end Given

/-! ## 3. What is made of values -/

/-- A value that is made like an earlier one leads to nothing, or is the same as it was. -/
theorem coerce_cases {h : Heap} {prior v w : Value} (hw : coerce h prior v = some w) :
    w.Bare ∨ w = v := by
  unfold coerce at hw
  split at hw
  case h_4 =>
    obtain ⟨s, _, rfl⟩ := Option.map_eq_some_iff.mp hw
    exact Or.inl ⟨rfl, rfl⟩
  case h_5 => exact Or.inr (Option.some.inj hw).symm
  all_goals
    cases hw
    exact Or.inl ⟨rfl, rfl⟩

theorem coerce_plain {h : Heap} {prior v w : Value} (hv : v.Plain)
    (hw : coerce h prior v = some w) : w.Plain := by
  rcases coerce_cases hw with hbare | rfl
  · exact hbare.plain
  · exact hv

namespace Expression

open Bytecode

theorem arithmetic_bare {op : Operation} {a b v : Value} (h : arithmetic op a b = .ok v) :
    v.Bare := by
  unfold arithmetic at h
  split at h
  · cases h
  · cases h
    exact ⟨rfl, rfl⟩
  · cases h
    exact ⟨rfl, rfl⟩
  · split at h
    · cases h
      exact ⟨rfl, rfl⟩
    · cases h

/-- A number leads to no storage. -/
theorem bare_of_isNumber {v : Value} (h : v.isNumber = true) : v.Bare := by
  cases v with
  | int _ | float _ | double _ => exact ⟨rfl, rfl⟩
  | _ => cases h

theorem unary_bare {h : Heap} {iterators : List Int32} {op : Operation} {a v : Value}
    (hv : unary h iterators op a = .ok v) : v.Bare := by
  have elementary_bare (op : Operation) (hv : elementary op a = .ok v) : v.Bare := by
    unfold elementary at hv
    split at hv <;> cases hv <;> exact ⟨rfl, rfl⟩
  unfold unary at hv
  split at hv
  case h_1 =>
    split at hv
    · next hnumber =>
      cases hv
      exact bare_of_isNumber hnumber
    · cases hv
  case h_7 =>
    dsimp only at hv
    split at hv
    · cases hv
      exact ⟨rfl, rfl⟩
    · cases hv
  case h_8 | h_9 | h_10 => exact elementary_bare _ hv
  all_goals cases hv <;> exact ⟨rfl, rfl⟩

theorem binary_bare {h : Heap} {op : Operation} {a b v : Value} (hv : binary h op a b = .ok v) :
    v.Bare := by
  have truth {x : Option Bool} {g : Bool → Bool}
      (hx : (orEndless x).map (fun c => .boolean (g c)) = .ok v) : v.Bare := by
    cases x with
    | none => cases hx
    | some c =>
      cases hx
      exact ⟨rfl, rfl⟩
  unfold binary at hv
  split at hv
  case h_1 =>
    split at hv
    · unfold concatenate at hv
      cases hs : h.text? a <;> cases ht : h.text? b <;> rw [hs, ht] at hv <;> cases hv
      exact ⟨rfl, rfl⟩
    · exact arithmetic_bare hv
  case h_11 => exact truth (g := fun c => c) hv
  case h_12 => exact truth (g := fun c => !c) hv
  all_goals first
    | exact arithmetic_bare hv
    | (unfold bitwise at hv; split at hv <;> cases hv; exact ⟨rfl, rfl⟩)
    | (split at hv <;> cases hv; exact ⟨rfl, rfl⟩)
    | (cases hv; exact ⟨rfl, rfl⟩)
    | cases hv

end Expression

/-! ## 4. Sameness -/

theorem Value.samePlain_isUndefined {v w : Value} (h : v.samePlain w = true) :
    v.isUndefined = w.isUndefined := by
  cases v <;> cases w <;> first
    | rfl
    | cases h

/-- What counts as the same is there if the other value is. -/
theorem Heap.same?_isUndefined {h : Heap} {v w : Value} (hs : h.same? v w = some true) :
    v.isUndefined = w.isUndefined := by
  unfold Heap.same? Heap.sameWithin at hs
  split at hs
  case h_5 => exact Value.samePlain_isUndefined (Option.some.inj hs)
  all_goals rfl

end InstrumentFlow
