import InstrumentFlow.Proofs.Storage.Fair

/-!
# Values of literals

A literal is written out, a value names the storages of its arrays. A value is that of a literal if
it says the same, array by array.

* `Literal.Denotes` -- the value is that of the literal;
* `Denotes.grown` -- storages that are added change nothing about it;
* `materialize_denotes` -- **the value that a literal gets is its own**;
* `Denotes.unique` -- a value is that of one literal at most.
-/

namespace InstrumentFlow

theorem Heap.elements_allocate_self (h : Heap) (elements : Array Value) :
    (h.allocate elements).2.elements (h.allocate elements).1 = elements := by
  rw [elements_allocate]
  exact if_pos rfl

namespace Literal

/-! ## 1. Literals and values -/

mutual

/-- **The value is that of the literal**: the same number or text, or an array with a storage whose
    elements are those of the literal, in order. -/
def Denotes (h : Heap) : Literal → Value → Prop
  | undefined, v => v = .undefined
  | null, v => v = .null
  | int i, v => v = .int i
  | float x, v => v = .float x
  | double x, v => v = .double x
  | boolean b, v => v = .boolean b
  | string s, v => v = .string s
  | array items, v =>
    ∃ a : ArrayId, v = .array a ∧ a.index < h.cells.size ∧ DenotesList h items (h.elements a).toList

/-- The values are those of the literals, in order. -/
def DenotesList (h : Heap) : List Literal → List Value → Prop
  | [], vs => vs = []
  | l :: ls, vs => ∃ v ws, vs = v :: ws ∧ Denotes h l v ∧ DenotesList h ls ws

end

section

variable {T : Terms} {h h' : Heap}

theorem DenotesList.getElem? {ls : List Literal} {vs : List Value} (hd : DenotesList h ls vs)
    {index : Nat} {l : Literal} (hl : ls[index]? = some l) :
    ∃ v, vs[index]? = some v ∧ Denotes h l v := by
  induction ls generalizing vs index with
  | nil => cases hl
  | cons k ls ih =>
    unfold DenotesList at hd
    obtain ⟨v, ws, rfl, hv, hws⟩ := hd
    cases index with
    | zero =>
      cases hl
      exact ⟨v, rfl, hv⟩
    | succ index => exact ih hws hl

/-! ## 2. More storages -/

mutual

/-- **Storages that are added** take no value away from its literal. -/
theorem Denotes.grown (hg : h.Grown T h') : ∀ {l : Literal} {v : Value},
    Denotes h l v → Denotes h' l v
  | .undefined, _, hd | .null, _, hd | .int _, _, hd | .float _, _, hd | .double _, _, hd
  | .boolean _, _, hd | .string _, _, hd => by
    unfold Denotes at hd ⊢
    exact hd
  | .array items, v, hd => by
    unfold Denotes at hd ⊢
    obtain ⟨a, rfl, ha, hitems⟩ := hd
    refine ⟨a, rfl, Nat.lt_of_lt_of_le ha hg.size_le, ?_⟩
    rw [hg.elements_eq ha]
    exact DenotesList.grown hg hitems

theorem DenotesList.grown (hg : h.Grown T h') : ∀ {ls : List Literal} {vs : List Value},
    DenotesList h ls vs → DenotesList h' ls vs
  | [], _, hd => by
    unfold DenotesList at hd ⊢
    exact hd
  | _ :: _, vs, hd => by
    unfold DenotesList at hd ⊢
    obtain ⟨v, ws, rfl, hv, hws⟩ := hd
    exact ⟨v, ws, rfl, Denotes.grown hg hv, DenotesList.grown hg hws⟩

end

/-! ## 3. Where values come from -/

mutual

/-- **The value that a literal gets is its own.** -/
theorem materialize_denotes : ∀ (l : Literal) (h : Heap),
    Denotes (l.materialize h).2 l (l.materialize h).1
  | .undefined, h | .null, h | .int _, h | .float _, h | .double _, h | .boolean _, h
  | .string _, h => by
    unfold materialize Denotes
    rfl
  | .array items, h => by
    have hitems := materializeList_denotes items h
    obtain ⟨_, hfair⟩ := materializeList_fair (T := lawless) items h
    unfold materialize Denotes
    dsimp only
    obtain ⟨hg, _⟩ := Heap.Grown.allocate (.refl (a := (materializeList items h).2)) hfair
    refine ⟨_, rfl, ?_, ?_⟩
    · rw [Heap.size_allocate]
      exact Nat.lt_succ_self _
    · rw [Heap.elements_allocate_self]
      exact hitems.grown hg

theorem materializeList_denotes : ∀ (ls : List Literal) (h : Heap),
    DenotesList (materializeList ls h).2 ls (materializeList ls h).1
  | [], h => by
    unfold materializeList DenotesList
    rfl
  | l :: ls, h => by
    have hv := materialize_denotes l h
    have hvs := materializeList_denotes ls (l.materialize h).2
    obtain ⟨hg, _⟩ := materializeList_fair (T := lawless) ls (l.materialize h).2
    unfold materializeList DenotesList
    exact ⟨_, _, rfl, hv.grown hg, hvs⟩

end

/-! ## 4. One literal at most -/

mutual

/-- **A value is that of one literal at most.** -/
theorem Denotes.unique : ∀ {l k : Literal} {v : Value}, Denotes h l v → Denotes h k v → l = k
  | .undefined, k, _, hl, hk | .null, k, _, hl, hk | .int _, k, _, hl, hk | .float _, k, _, hl, hk
  | .double _, k, _, hl, hk | .boolean _, k, _, hl, hk | .string _, k, _, hl, hk => by
    unfold Denotes at hl
    subst hl
    cases k with
    | array items =>
      unfold Denotes at hk
      obtain ⟨_, heq, _⟩ := hk
      cases heq
    | _ =>
      unfold Denotes at hk
      cases hk <;> rfl
  | .array items, k, _, hl, hk => by
    unfold Denotes at hl
    obtain ⟨a, rfl, _, hitems⟩ := hl
    cases k with
    | array items' =>
      unfold Denotes at hk
      obtain ⟨b, heq, _, hitems'⟩ := hk
      cases heq
      exact congrArg array (DenotesList.unique hitems hitems')
    | _ =>
      unfold Denotes at hk
      cases hk

theorem DenotesList.unique : ∀ {ls ks : List Literal} {vs : List Value},
    DenotesList h ls vs → DenotesList h ks vs → ls = ks
  | [], [], _, _, _ => rfl
  | [], _ :: _, _, hls, hks => by
    unfold DenotesList at hls hks
    obtain ⟨_, _, heq, _⟩ := hks
    cases hls.symm.trans heq
  | _ :: _, [], _, hls, hks => by
    unfold DenotesList at hls hks
    obtain ⟨_, _, heq, _⟩ := hls
    cases hks.symm.trans heq
  | _ :: _, _ :: _, _, hls, hks => by
    unfold DenotesList at hls hks
    obtain ⟨v, ws, rfl, hv, hws⟩ := hls
    obtain ⟨_, _, heq, hv', hws'⟩ := hks
    cases heq
    rw [Denotes.unique hv hv', DenotesList.unique hws hws']

end

end

end Literal

end InstrumentFlow
