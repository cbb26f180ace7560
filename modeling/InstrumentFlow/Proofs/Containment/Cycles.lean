import InstrumentFlow.Proofs.Storage.Operands
import Mathlib.Data.Finset.Card

/-!
# Arrays that contain themselves

An array holds handles of other arrays, and through a handle of its own it contains itself. Its text
and its comparison have no end then. Where no array does, both have one.

* `Heap.Holds`, `Heap.Acyclic` -- one storage holds a handle of another one, and none leads back to
  itself;
* `Heap.Reaches` -- a value leads to a storage;
* `Acyclic.grown` -- storages that are added close no cycle;
* `Acyclic.write`, `cyclic_write` -- a write closes a cycle where the value leads back, and only
  there;
* `Heap.extent` -- how many storages can be reached; `extent_lt` -- from what a storage holds there
  are fewer, unless it contains itself;
* `Heap.Grounded` -- a value that leads to no storage that contains itself;
* `Grounded.same?_ne_none` -- its comparisons have an end;
* `Acyclic.text?_ne_none`, `same?_ne_none`, `equal?_ne_none` -- texts and comparisons have an end.
-/

namespace InstrumentFlow.Heap

open Relation (ReflTransGen TransGen)

/-- **The storage `a` holds a handle of the storage `b`.** -/
def Holds (h : Heap) (a b : ArrayId) : Prop := ∃ v ∈ h.elements a, v.handle? = some b

/-- **No storage contains itself**, however far down. -/
def Acyclic (h : Heap) : Prop := ∀ a, ¬ TransGen h.Holds a a

/-- The value leads to the storage, at once or through other storages. -/
def Reaches (h : Heap) (v : Value) (a : ArrayId) : Prop :=
  ∃ b, v.handle? = some b ∧ ReflTransGen h.Holds b a

variable {T : Terms} {h h' : Heap} {a b : ArrayId}

theorem Holds.index_lt (hab : h.Holds a b) : a.index < h.cells.size := by
  obtain ⟨v, hv, _⟩ := hab
  exact index_lt_of_mem hv

theorem acyclic_empty : ({} : Heap).Acyclic := by
  intro a hcycle
  obtain ⟨b, hab, _⟩ := TransGen.head'_iff.mp hcycle
  exact absurd hab.index_lt (Nat.not_lt_zero _)

/-! ## 1. More storages -/

/-- What a new storage holds was there before it, and so was whatever is held anywhere. -/
theorem holds_allots (hn : T.noArrays) (hh : h.AllFair T) (hallots : h.Allots T h')
    (hab : h'.Holds a b) :
    b.index < h.cells.size ∧ (a.index < h.cells.size → h.Holds a b) := by
  obtain ⟨elements, hfair, rfl⟩ := hallots
  obtain ⟨v, hv, hb⟩ := hab
  rw [elements_allocate] at hv
  split at hv
  · next ha => exact ⟨(hfair v hv).known hn b hb, fun hlt => absurd ha (Nat.ne_of_lt hlt)⟩
  · exact ⟨(hh a v hv).known hn b hb, fun _ => ⟨v, hv, hb⟩⟩

/-- What leads from one old storage to another one did so before. -/
theorem transGen_allots (hn : T.noArrays) (hh : h.AllFair T) (hallots : h.Allots T h')
    (ha : a.index < h.cells.size) (hab : TransGen h'.Holds a b) :
    TransGen h.Holds a b ∧ b.index < h.cells.size := by
  induction hab with
  | single hab =>
    obtain ⟨hb, hold⟩ := holds_allots hn hh hallots hab
    exact ⟨.single (hold ha), hb⟩
  | tail _ hbc ih =>
    obtain ⟨hc, hold⟩ := holds_allots hn hh hallots hbc
    exact ⟨ih.1.tail (hold ih.2), hc⟩

theorem Acyclic.allots (hac : h.Acyclic) (hn : T.noArrays) (hh : h.AllFair T)
    (hallots : h.Allots T h') : h'.Acyclic := by
  intro a hcycle
  -- the last handle on the cycle leads to an old storage, so the cycle is an old one
  obtain ⟨b, _, hba⟩ := TransGen.tail'_iff.mp hcycle
  have ha : a.index < h.cells.size := (holds_allots hn hh hallots hba).1
  exact hac a (transGen_allots hn hh hallots ha hcycle).1

/-- **Storages that are added close no cycle.** -/
theorem Acyclic.grown (hac : h.Acyclic) (hn : T.noArrays) (hh : h.AllFair T)
    (hg : h.Grown T h') : h'.Acyclic := by
  induction hg with
  | refl => exact hac
  | tail hg hallots ih => exact ih.allots hn (Grown.allFair hg hh) hallots

/-! ## 2. Writes -/

theorem holds_write {index : Nat} {v : Value} {x y : ArrayId}
    (hxy : (h.write a index v).Holds x y) : h.Holds x y ∨ x = a ∧ v.handle? = some y := by
  obtain ⟨w, hw, hy⟩ := hxy
  rw [elements_write] at hw
  split at hw
  · next hx =>
    rcases Array.mem_or_eq_of_mem_setIfInBounds hw with hw | rfl
    · exact Or.inl ⟨w, hx ▸ hw, hy⟩
    · exact Or.inr ⟨hx, hy⟩
  · exact Or.inl ⟨w, hw, hy⟩

/-- After a write whose value does not lead back, a way is an old one, or it goes through the
    written storage and on from the value. -/
theorem transGen_write {index : Nat} {v : Value} (hv : ¬ h.Reaches v a) {x y : ArrayId}
    (hxy : TransGen (h.write a index v).Holds x y) :
    TransGen h.Holds x y ∨ ReflTransGen h.Holds x a ∧ h.Reaches v y := by
  induction hxy with
  | single hxy =>
    rcases holds_write hxy with hxy | ⟨rfl, hy⟩
    · exact Or.inl (.single hxy)
    · exact Or.inr ⟨.refl, _, hy, .refl⟩
  | tail _ hyz ih =>
    rcases holds_write hyz with hyz | ⟨rfl, hz⟩
    · rcases ih with hxy | ⟨hxa, b, hb, hby⟩
      · exact Or.inl (hxy.tail hyz)
      · exact Or.inr ⟨hxa, b, hb, hby.tail hyz⟩
    · rcases ih with hxy | ⟨_, hreaches⟩
      · exact Or.inr ⟨hxy.to_reflTransGen, _, hz, .refl⟩
      · exact absurd hreaches hv

/-- **A write closes no cycle** if the value does not lead back to the storage. -/
theorem Acyclic.write (hac : h.Acyclic) {index : Nat} {v : Value} (hv : ¬ h.Reaches v a) :
    (h.write a index v).Acyclic := by
  intro x hcycle
  rcases transGen_write hv hcycle with hold | ⟨hxa, b, hb, hbx⟩
  · exact hac x hold
  · exact hv ⟨b, hb, hbx.trans hxa⟩

/-- What leads to the written storage still does. -/
theorem reflTransGen_write {index : Nat} {v : Value} {x : ArrayId}
    (hx : ReflTransGen h.Holds x a) : ReflTransGen (h.write a index v).Holds x a := by
  induction hx using ReflTransGen.head_induction_on with
  | refl => exact .refl
  | @head x y hxy _ ih =>
    by_cases hxa : x = a
    · rw [hxa]
    · obtain ⟨w, hw, hy⟩ := hxy
      refine .head ⟨w, ?_, hy⟩ ih
      rwa [elements_write, if_neg hxa]

/-- **A write closes a cycle** if the value leads back to the storage. -/
theorem cyclic_write {index : Nat} {v : Value} (hi : index < (h.elements a).size)
    (hv : h.Reaches v a) : ¬ (h.write a index v).Acyclic := by
  obtain ⟨b, hb, hba⟩ := hv
  have hholds : (h.write a index v).Holds a b := by
    refine ⟨v, ?_, hb⟩
    rw [elements_write, if_pos rfl, Array.setIfInBounds_def, dif_pos hi]
    exact Array.mem_set hi
  exact fun hac => hac a (.head' hholds (reflTransGen_write hba))

/-! ## 3. Extent -/

open Classical in
/-- **How many storages can be reached** from a storage, itself included. -/
noncomputable def extent (h : Heap) (a : ArrayId) : Nat :=
  ((Finset.range h.cells.size).filter fun n => ReflTransGen h.Holds a ⟨n⟩).card

theorem extent_le (h : Heap) (a : ArrayId) : h.extent a ≤ h.cells.size := by
  classical
  exact (Finset.card_filter_le _ _).trans_eq (Finset.card_range _)

/-- **From what a storage holds fewer storages can be reached** than from itself, if it does not
    contain itself. -/
theorem extent_lt (ha : ¬ TransGen h.Holds a a) (hab : h.Holds a b) :
    h.extent b < h.extent a := by
  classical
  refine Finset.card_lt_card ⟨fun n hn => ?_, fun hsubset => ?_⟩
  · obtain ⟨hlt, hbn⟩ := Finset.mem_filter.mp hn
    exact Finset.mem_filter.mpr ⟨hlt, .head hab hbn⟩
  · have hitself : a.index ∈ (Finset.range h.cells.size).filter
        fun n => ReflTransGen h.Holds a ⟨n⟩ :=
      Finset.mem_filter.mpr ⟨Finset.mem_range.mpr hab.index_lt, .refl⟩
    have hba : ReflTransGen h.Holds b a := (Finset.mem_filter.mp (hsubset hitself)).2
    exact ha (.head' hab hba)

/-- The value leads to fewer storages than the depth. -/
def Within (h : Heap) (depth : Nat) (v : Value) : Prop :=
  ∀ a, v.handle? = some a → h.extent a < depth

theorem within_of_mem (ha : ¬ TransGen h.Holds a a) {depth : Nat} (hdepth : h.extent a < depth + 1)
    {v : Value} (hv : v ∈ h.elements a) : h.Within depth v := fun _ hb =>
  Nat.lt_of_lt_of_le (extent_lt ha ⟨v, hv, hb⟩) (Nat.lt_succ_iff.mp hdepth)

theorem within_of_lt {depth : Nat} (hdepth : h.cells.size < depth) (v : Value) :
    h.Within depth v := fun a _ => Nat.lt_of_le_of_lt (h.extent_le a) hdepth

/-- **The value leads to no storage that contains itself.** -/
def Grounded (h : Heap) (v : Value) : Prop := ∀ a, h.Reaches v a → ¬ TransGen h.Holds a a

theorem Acyclic.grounded (hac : h.Acyclic) (v : Value) : h.Grounded v := fun a _ => hac a

theorem Grounded.not_cyclic {v : Value} (hv : h.Grounded v) (ha : v.handle? = some a) :
    ¬ TransGen h.Holds a a := hv a ⟨a, ha, .refl⟩

theorem Grounded.of_mem {v u : Value} (hv : h.Grounded v) (ha : v.handle? = some a)
    (hu : u ∈ h.elements a) : h.Grounded u := fun c ⟨_, hb, hbc⟩ =>
  hv c ⟨a, ha, .head ⟨u, hu, hb⟩ hbc⟩

/-! ## 4. Texts and comparisons -/

/-- A list is mapped if each of its elements is. -/
theorem mapM_ne_none {α β : Type} {f : α → Option β} {xs : List α} (hf : ∀ x ∈ xs, f x ≠ none) :
    xs.mapM f ≠ none := by
  induction xs with
  | nil => exact Option.some_ne_none _
  | cons x xs ih =>
    obtain ⟨y, hy⟩ := Option.ne_none_iff_exists'.mp (hf x List.mem_cons_self)
    obtain ⟨ys, hys⟩ := Option.ne_none_iff_exists'.mp
      (ih fun x' hx' => hf x' (List.mem_cons_of_mem x hx'))
    rw [List.mapM_cons, hy, hys]
    exact Option.some_ne_none _

theorem Acyclic.textWithin_ne_none (hac : h.Acyclic) (depth : Nat) {v : Value}
    (hv : h.Within depth v) : h.textWithin depth v ≠ none := by
  induction depth generalizing v with
  | zero =>
    cases v with
    | array a => exact absurd (hv a rfl) (Nat.not_lt_zero _)
    | _ => exact Option.some_ne_none _
  | succ depth ih =>
    cases v with
    | array a =>
      have hparts : (h.elements a).toList.mapM (h.textWithin depth) ≠ none :=
        mapM_ne_none fun w hw => ih (within_of_mem (hac a) (hv a rfl) (Array.mem_toList_iff.mp hw))
      exact fun hnone => hparts (Option.map_eq_none_iff.mp hnone)
    | _ => exact Option.some_ne_none _

theorem sameAll?_ne_none {same? : Value → Value → Option Bool} {vs ws : List Value}
    (hs : ∀ v ∈ vs, ∀ w, same? v w ≠ none) : sameAll? same? vs ws ≠ none := by
  induction vs generalizing ws with
  | nil => exact Option.some_ne_none _
  | cons v vs ih =>
    cases ws with
    | nil => exact Option.some_ne_none _
    | cons w ws =>
      unfold sameAll?
      split
      · exact ih fun v' hv' => hs v' (List.mem_cons_of_mem v hv')
      · exact hs v List.mem_cons_self w

theorem sameElements?_ne_none {same? : Value → Value → Option Bool}
    (hs : ∀ v ∈ h.elements a, ∀ w, same? v w ≠ none) : h.sameElements? same? a b ≠ none := by
  unfold sameElements?
  dsimp only
  split
  · exact sameAll?_ne_none fun v hv => hs v (Array.mem_toList_iff.mp hv)
  · exact Option.some_ne_none _

theorem Grounded.sameWithin_ne_none {v : Value} (hg : h.Grounded v) (depth : Nat)
    (hv : h.Within depth v) (w : Value) : h.sameWithin depth v w ≠ none := by
  induction depth generalizing v w with
  | zero =>
    cases v with
    | array a | element a _ => exact absurd (hv a rfl) (Nat.not_lt_zero _)
    | _ => exact Option.some_ne_none _
  | succ depth ih =>
    have helements {a b : ArrayId} (ha : v.handle? = some a) :
        h.sameElements? (h.sameWithin depth) a b ≠ none :=
      sameElements?_ne_none fun u hu =>
        ih (hg.of_mem ha hu) (within_of_mem (hg.not_cyclic ha) (hv a ha) hu)
    cases v with
    | array a =>
      cases w with
      | array b => exact helements rfl
      | _ => exact Option.some_ne_none _
    | element a i =>
      cases w with
      | element b j => exact fun hnone => helements rfl (Option.map_eq_none_iff.mp hnone)
      | _ => exact Option.some_ne_none _
    | _ => exact Option.some_ne_none _

/-- **Every value has a text.** -/
theorem Acyclic.text?_ne_none (hac : h.Acyclic) (v : Value) : h.text? v ≠ none :=
  hac.textWithin_ne_none _ fun a _ => Nat.lt_succ_of_le (h.extent_le a)

theorem size_add_one_lt_comparisonDepth (h : Heap) : h.cells.size + 1 < h.comparisonDepth := by
  have hsquare := Nat.le_mul_self h.cells.size
  unfold comparisonDepth
  omega

theorem Grounded.same?_ne_none {v : Value} (hg : h.Grounded v) (w : Value) :
    h.same? v w ≠ none :=
  hg.sameWithin_ne_none _
    (within_of_lt (Nat.lt_of_succ_lt h.size_add_one_lt_comparisonDepth) v) w

/-- **Every comparison has an end.** -/
theorem Acyclic.same?_ne_none (hac : h.Acyclic) (v w : Value) : h.same? v w ≠ none :=
  (hac.grounded v).same?_ne_none w

theorem Grounded.equal?_ne_none {v : Value} (hg : h.Grounded v) (w : Value) :
    h.equal? v w ≠ none := by
  unfold equal?
  split
  case h_5 =>
    split
    · exact Option.some_ne_none _
    · exact hg.same?_ne_none _
  all_goals exact Option.some_ne_none _

theorem Acyclic.equal?_ne_none (hac : h.Acyclic) (v w : Value) : h.equal? v w ≠ none :=
  (hac.grounded v).equal?_ne_none w

theorem Acyclic.not_endless (hac : h.Acyclic) : ¬ h.Endless := by
  rintro ⟨v, w, hnone | hnone⟩
  · exact hac.text?_ne_none v hnone
  · exact hac.same?_ne_none v w hnone

end InstrumentFlow.Heap
