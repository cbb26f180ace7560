import InstrumentFlow.Proofs.Containment.Cycles
import InstrumentFlow.Proofs.Expression.Application
import InstrumentFlow.Proofs.Numeric.Amounts

/-!
# Equality as expressions see it

Numbers are equal if they amount to the same, in whatever kinds they are held. Inside arrays this is
so only for elements of one kind: there an integer differs from every number of the other kinds.

* `Heap.Comparable` -- plain values in which every number amounts to something, arrays nested to any
  depth;
* `sameWithin_mono` -- a comparison that has an end does not depend on the depth it may go to;
* `Heap.Elementwise` -- two storages of one size, related element by element;
* `same?_array` -- arrays are compared by their elements;
* `Comparable.same_iff` -- **same are values of one kind that are equal**;
* `Heap.Same`, `Heap.Equals` -- the answers of the two comparisons;
* `equality_laws` -- **equality in an expression**;
* `not_equal_elementwise` -- arrays that differ although their elements are equal.
-/

namespace InstrumentFlow

open Numeric

/-! ## 1. Values that can be compared -/

/-- What a number amounts to, in whatever kind it is held; nothing for other values. -/
def Value.amount? : Value → Option Amount
  | .int i => some (.finite i.toInt)
  | .float x => x.amount?
  | .double x => x.amount?
  | _ => none

section

variable {v w : Value} {p q : Amount}

theorem Value.isNumber_of_amount? (hv : v.amount? = some q) : v.isNumber = true := by
  cases v with
  | int _ | float _ | double _ => rfl
  | _ => cases hv

theorem natAbs_toInt_lt (i : Int32) : i.toInt.natAbs < twoTo 53 := by
  have hlow := Int32.le_toInt i
  have hhigh := Int32.toInt_lt i
  have hbound : (2 : Int) ^ 31 < twoTo 53 := by decide
  omega

/-- A number amounts to the same as a number of 64 bits. -/
theorem Value.amount?_toDouble (hv : v.amount? = some q) : v.toDouble.amount? = some q := by
  cases v with
  | int i =>
    rw [← hv]
    exact Binary.amount?_ofInt (natAbs_toInt_lt i)
  | float x =>
    have hnan : x.isNaN = false := by
      cases hx : x.isNaN with
      | false => rfl
      | true => cases hv.symm.trans (Binary.amount?_eq_none_iff.mpr hx)
    rw [← hv]
    exact Binary.amount?_widened hnan
  | double x => exact hv
  | _ => cases hv

/-- Numbers of one kind are the same exactly if they amount to the same. -/
theorem Value.samePlain_iff (hv : v.amount? = some p) (hw : w.amount? = some q) :
    v.samePlain w = true ↔ v.kind = w.kind ∧ p = q := by
  cases v with
  | int i =>
    cases w with
    | int j =>
      cases hv
      cases hw
      simp [samePlain, kind, Int32.toInt_inj]
    | float _ | double _ => simp [samePlain, kind]
    | _ => cases hw
  | float x =>
    cases w with
    | float y =>
      show x.equals y = true ↔ _
      rw [Binary.equals_iff_single, show x.amount? = _ from hv, show y.amount? = _ from hw]
      simp [kind, eq_comm]
    | int _ | double _ => simp [samePlain, kind]
    | _ => cases hw
  | double x =>
    cases w with
    | double y =>
      show x.equals y = true ↔ _
      rw [Binary.equals_iff_double, show x.amount? = _ from hv, show y.amount? = _ from hw]
      simp [kind, eq_comm]
    | int _ | float _ => simp [samePlain, kind]
    | _ => cases hw
  | _ => cases hv

theorem Value.isNumber_of_kind (hkind : v.kind = w.kind) (hv : v.isNumber = true) :
    w.isNumber = true := by
  cases v <;> cases hv <;> cases w <;> first | rfl | cases hkind

theorem Value.samePlain_kind (h : v.samePlain w = true) : v.kind = w.kind := by
  unfold samePlain at h
  split at h <;> first | rfl | cases h

end

namespace Heap

open Relation (TransGen)

/-- **A plain value in which every number amounts to something**, with arrays nested to any
    depth. -/
inductive Comparable (h : Heap) : Value → Prop
  | undefined : Comparable h .undefined
  | null : Comparable h .null
  | boolean (b : Bool) : Comparable h (.boolean b)
  | string (s : String) : Comparable h (.string s)
  | number {v : Value} {q : Amount} (hv : v.amount? = some q) : Comparable h v
  | array {a : ArrayId} (helements : ∀ v ∈ h.elements a, Comparable h v) : Comparable h (.array a)

variable {h : Heap} {a b : ArrayId} {u v w : Value}

theorem handle?_of_amount? {q : Amount} (hv : v.amount? = some q) : v.handle? = none := by
  cases v with
  | int _ | float _ | double _ => rfl
  | _ => cases hv

theorem Comparable.of_mem (ha : h.Comparable (.array a)) (hv : v ∈ h.elements a) :
    h.Comparable v := by
  cases ha with
  | number hv => cases hv
  | array helements => exact helements v hv

theorem Comparable.of_elements (vs : List Value) (ha : h.elements a = vs.toArray)
    (hvs : ∀ v ∈ vs, h.Comparable v) : h.Comparable (.array a) :=
  .array fun v hv => hvs v (List.mem_toArray.mp (ha ▸ hv))

/-- Induction on how arrays nest: values without elements first. -/
@[elab_as_elim]
theorem Comparable.induction {motive : (v : Value) → h.Comparable v → Prop}
    (plain : ∀ {v} (hv : h.Comparable v), v.handle? = none → motive v hv)
    (array : ∀ {a} (ha : h.Comparable (.array a)),
      (∀ v (hv : v ∈ h.elements a), motive v (ha.of_mem hv)) → motive (.array a) ha)
    {v : Value} (hv : h.Comparable v) : motive v hv := by
  induction hv with
  | undefined => exact plain .undefined rfl
  | null => exact plain .null rfl
  | boolean b => exact plain (.boolean b) rfl
  | string s => exact plain (.string s) rfl
  | number hv => exact plain (.number hv) (handle?_of_amount? hv)
  | array helements ih => exact array (.array helements) ih

/-- Nesting to a depth leaves no room for an array that contains itself. -/
theorem Comparable.grounded (hv : h.Comparable v) : h.Grounded v := by
  induction hv using Comparable.induction with
  | plain _ hnone =>
    intro c hc
    obtain ⟨b, hb, _⟩ := hc
    cases hnone.symm.trans hb
  | @array a _ ih =>
    -- what lies below an element is known, and a cycle through the array itself passes an element
    have hbelow {b c : ArrayId} (hab : h.Holds a b)
        (hbc : Relation.ReflTransGen h.Holds b c) : ¬ TransGen h.Holds c c := by
      obtain ⟨u, hu, hb⟩ := hab
      exact ih u hu c ⟨b, hb, hbc⟩
    intro c hc
    obtain ⟨b, hb, hbc⟩ := hc
    cases hb
    rcases Relation.ReflTransGen.cases_head hbc with rfl | ⟨d, had, hdc⟩
    · intro hcycle
      obtain ⟨d, had, hda⟩ := TransGen.head'_iff.mp hcycle
      exact hbelow had hda hcycle
    · exact hbelow had hdc

/-! ## 2. Depth -/

section

variable {f g : Value → Value → Option Bool} {answer : Bool}

theorem sameAll?_mono (hfg : ∀ v w r, f v w = some r → g v w = some r) {vs ws : List Value}
    (hr : sameAll? f vs ws = some answer) : sameAll? g vs ws = some answer := by
  induction vs generalizing ws with
  | nil => exact hr
  | cons v vs ih =>
    cases ws with
    | nil => exact hr
    | cons w ws =>
      unfold sameAll? at hr ⊢
      cases hf : f v w with
      | none =>
        rw [hf] at hr
        cases hr
      | some r =>
        rw [hf] at hr
        rw [hfg v w r hf]
        cases r with
        | true => exact ih hr
        | false => exact hr

theorem sameElements?_mono (hfg : ∀ v w r, f v w = some r → g v w = some r)
    (hr : h.sameElements? f a b = some answer) : h.sameElements? g a b = some answer := by
  unfold sameElements? at hr ⊢
  dsimp only at hr ⊢
  split at hr
  · next hsize =>
    rw [if_pos hsize]
    exact sameAll?_mono hfg hr
  · next hsize =>
    rw [if_neg hsize]
    exact hr

/-- One more level of depth changes no answer. -/
theorem sameWithin_succ {depth : Nat} (hr : h.sameWithin depth v w = some answer) :
    h.sameWithin (depth + 1) v w = some answer := by
  induction depth generalizing v w answer with
  | zero =>
    cases v <;> cases w <;> first | exact hr | cases hr
  | succ depth ih =>
    cases v with
    | array a =>
      cases w with
      | array b => exact sameElements?_mono (fun v w r => ih) hr
      | _ => exact hr
    | element a i =>
      cases w with
      | element b j =>
        obtain ⟨r, hsame, hr⟩ := Option.map_eq_some_iff.mp hr
        exact Option.map_eq_some_iff.mpr
          ⟨r, sameElements?_mono (fun v w r => ih) hsame, hr⟩
      | _ => exact hr
    | _ => exact hr

/-- **A comparison that has an end does not depend on the depth** that it may go to. -/
theorem sameWithin_mono {depth depth' : Nat} (hle : depth ≤ depth')
    (hr : h.sameWithin depth v w = some answer) : h.sameWithin depth' v w = some answer := by
  induction hle with
  | refl => exact hr
  | step _ ih => exact sameWithin_succ ih

end

/-! ## 3. Arrays -/

/-- **Two storages of one size, related element by element.** -/
def Elementwise (h : Heap) (R : Value → Value → Prop) (a b : ArrayId) : Prop :=
  (h.elements a).size = (h.elements b).size
    ∧ ∀ i (hi : i < (h.elements a).size) (hi' : i < (h.elements b).size),
      R ((h.elements a)[i]) ((h.elements b)[i])

theorem sameAll?_eq_true_iff {f : Value → Value → Option Bool} {vs ws : List Value}
    (hlength : vs.length = ws.length) :
    sameAll? f vs ws = some true ↔ List.Forall₂ (fun v w => f v w = some true) vs ws := by
  induction vs generalizing ws with
  | nil =>
    cases ws with
    | nil => exact ⟨fun _ => .nil, fun _ => rfl⟩
    | cons w ws => cases hlength
  | cons v vs ih =>
    cases ws with
    | nil => cases hlength
    | cons w ws =>
      rw [List.forall₂_cons]
      unfold sameAll?
      split
      · next htrue => rw [ih (Nat.succ.inj hlength), and_iff_right htrue]
      · next hother => exact ⟨fun h => absurd h hother, fun h => h.1⟩

theorem sameElements?_eq_true_iff {f : Value → Value → Option Bool} :
    h.sameElements? f a b = some true ↔ h.Elementwise (fun v w => f v w = some true) a b := by
  unfold sameElements? Elementwise
  dsimp only
  split
  · next hsize =>
    rw [and_iff_right hsize, sameAll?_eq_true_iff (by simpa using hsize), List.forall₂_iff_get]
    simp [hsize]
  · next hsize => exact ⟨nofun, fun h => absurd h.1 hsize⟩

/-- **The same kind and the same content.** -/
def Same (h : Heap) (v w : Value) : Prop := h.same? v w = some true

/-- **Equal as expressions see it.** -/
def Equals (h : Heap) (v w : Value) : Prop := h.equal? v w = some true

/-- **Arrays are the same if their elements are**, position by position. -/
theorem Grounded.same_array (ha : h.Grounded (.array a)) :
    h.Same (.array a) (.array b) ↔ h.Elementwise h.Same a b := by
  obtain ⟨depth, hdepth⟩ : ∃ depth, h.comparisonDepth = depth + 1 := ⟨_, rfl⟩
  have hroom : h.cells.size < depth := by
    have := h.size_add_one_lt_comparisonDepth
    omega
  have hunfold : h.same? (.array a) (.array b) = h.sameElements? (h.sameWithin depth) a b := by
    unfold same?
    rw [hdepth]
    rfl
  unfold Same
  rw [hunfold, sameElements?_eq_true_iff]
  refine and_congr_right fun _ => forall₃_congr fun i hi hi' => ⟨fun hsame => ?_, fun hsame => ?_⟩
  · exact sameWithin_mono (by omega) hsame
  · -- the elements are compared to an end within the smaller depth already
    have hu : h.Grounded (h.elements a)[i] := ha.of_mem rfl (Array.getElem_mem hi)
    obtain ⟨r, hr⟩ := Option.ne_none_iff_exists'.mp
      (hu.sameWithin_ne_none depth (within_of_lt hroom _) (h.elements b)[i])
    have hall : h.sameWithin h.comparisonDepth (h.elements a)[i] (h.elements b)[i] = some r :=
      sameWithin_mono (by omega) hr
    exact hr.trans (hall.symm.trans hsame)

/-! ## 4. What the two comparisons compare -/

/-- **Values that agree**: one and the same, numbers that amount to the same, or arrays of the same
    content. -/
inductive Agree (h : Heap) : Value → Value → Prop
  | refl (v : Value) : Agree h v v
  | number {v w : Value} {q : Amount} (hv : v.amount? = some q) (hw : w.amount? = some q) :
    Agree h v w
  | array {a b : ArrayId} (hs : h.Same (.array a) (.array b)) : Agree h (.array a) (.array b)

/-- Values without elements are compared at once. -/
theorem same_iff_samePlain (hv : v.handle? = none) : h.Same v w ↔ v.samePlain w = true := by
  have hplain : h.same? v w = some (v.samePlain w) := by
    cases v with
    | array _ | element _ _ => cases hv
    | _ => rfl
  unfold Same
  rw [hplain, Option.some.injEq]

theorem same_iff_of_amount? {p q : Amount} (hv : v.amount? = some p) (hw : w.amount? = some q) :
    h.Same v w ↔ v.kind = w.kind ∧ p = q := by
  rw [same_iff_samePlain (handle?_of_amount? hv), Value.samePlain_iff hv hw]

theorem Same.kind (hs : h.Same v w) : v.kind = w.kind := by
  cases hv : v.handle? with
  | none => exact Value.samePlain_kind ((same_iff_samePlain hv).mp hs)
  | some a =>
    cases v with
    | array a =>
      cases w with
      | array b => rfl
      | _ => cases hs
    | element a i =>
      cases w with
      | element b j => rfl
      | _ => cases hs
    | _ => cases hv

theorem equals_iff_of_amount? {p q : Amount} (hv : v.amount? = some p) (hw : w.amount? = some q) :
    h.Equals v w ↔ p = q := by
  have hnumbers : h.equal? v w = some (v.toDouble.equals w.toDouble) := by
    have hn := Value.isNumber_of_amount? hv
    have hm := Value.isNumber_of_amount? hw
    unfold equal?
    split <;> first | cases hn | skip
    rw [hn, hm]
    rfl
  unfold Equals
  rw [hnumbers, Option.some.injEq, Binary.equals_iff_double, Value.amount?_toDouble hv,
    Value.amount?_toDouble hw]
  simp [eq_comm]

theorem equals_array : h.Equals (.array a) (.array b) ↔ a = b ∨ h.Same (.array a) (.array b) := by
  unfold Equals equal?
  dsimp only
  split
  · next hab => simp [hab]
  · next hab => simp [hab, Same]

/-- Every comparable value is the same as itself. -/
theorem Comparable.same_refl (hv : h.Comparable v) : h.Same v v := by
  induction hv with
  | undefined | null => exact (same_iff_samePlain rfl).mpr rfl
  | boolean b => exact (same_iff_samePlain rfl).mpr (beq_self_eq_true b)
  | string s => exact (same_iff_samePlain rfl).mpr (beq_self_eq_true s)
  | number hv => exact (same_iff_of_amount? hv hv).mpr ⟨rfl, rfl⟩
  | array helements ih =>
    exact (Comparable.array helements).grounded.same_array.mpr
      ⟨rfl, fun i hi _ => ih _ (Array.getElem_mem hi)⟩

theorem Comparable.exists_amount (hv : h.Comparable v) (hn : v.isNumber = true) :
    ∃ q, v.amount? = some q := by
  cases hv with
  | number hv => exact ⟨_, hv⟩
  | _ => cases hn

/-- **Equal are values that agree.** -/
theorem Comparable.equals_iff (hv : h.Comparable v) (hw : h.Comparable w) :
    h.Equals v w ↔ h.Agree v w := by
  constructor
  · intro he
    unfold Equals equal? at he
    split at he
    · exact .refl _
    · exact .refl _
    · next s t =>
      have hst : s = t := eq_of_beq (Option.some.inj he)
      exact hst ▸ .refl _
    · next x y =>
      have hxy : x = y := eq_of_beq (Option.some.inj he)
      exact hxy ▸ .refl _
    · next a b =>
      rcases equals_array.mp he with rfl | hs
      · exact .refl _
      · exact .array hs
    · have he := Option.some.inj he
      rw [Bool.and_eq_true, Bool.and_eq_true, Binary.equals_iff_double] at he
      obtain ⟨⟨hn, hm⟩, q, hq, hr⟩ := he
      obtain ⟨p, hp⟩ := hv.exists_amount hn
      obtain ⟨r, hr'⟩ := hw.exists_amount hm
      have hpq : p = q := Option.some.inj ((Value.amount?_toDouble hp).symm.trans hq)
      have hrq : r = q := Option.some.inj ((Value.amount?_toDouble hr').symm.trans hr)
      exact .number (hpq ▸ hp) (hrq ▸ hr')
  · intro ha
    cases ha with
    | refl =>
      cases hv with
      | undefined | null => rfl
      | boolean b => exact congrArg some (beq_self_eq_true b)
      | string s => exact congrArg some (beq_self_eq_true s)
      | number hv => exact (equals_iff_of_amount? hv hv).mpr rfl
      | array _ => exact equals_array.mpr (.inl rfl)
    | number hv hw => exact (equals_iff_of_amount? hv hw).mpr rfl
    | array hs => exact equals_array.mpr (.inr hs)

/-- **Same are values of one kind that agree.** -/
theorem Comparable.same_iff (hv : h.Comparable v) (hw : h.Comparable w) :
    h.Same v w ↔ v.kind = w.kind ∧ h.Agree v w := by
  constructor
  · intro hs
    refine ⟨hs.kind, ?_⟩
    cases hv with
    | undefined =>
      cases w with
      | undefined => exact .refl _
      | _ => cases hs.kind
    | null =>
      cases w with
      | null => exact .refl _
      | _ => cases hs.kind
    | boolean x =>
      cases w with
      | boolean y =>
        have hxy : x = y := eq_of_beq ((same_iff_samePlain rfl).mp hs)
        exact hxy ▸ .refl _
      | _ => cases hs.kind
    | string s =>
      cases w with
      | string t =>
        have hst : s = t := eq_of_beq ((same_iff_samePlain rfl).mp hs)
        exact hst ▸ .refl _
      | _ => cases hs.kind
    | number hv =>
      have hn := Value.isNumber_of_kind hs.kind (Value.isNumber_of_amount? hv)
      obtain ⟨r, hr⟩ := hw.exists_amount hn
      obtain ⟨_, rfl⟩ := (same_iff_of_amount? hv hr).mp hs
      exact .number hv hr
    | array _ =>
      cases w with
      | array b => exact .array hs
      | _ => cases hs.kind
  · rintro ⟨hkind, ha⟩
    cases ha with
    | refl => exact hv.same_refl
    | number hv hw => exact (same_iff_of_amount? hv hw).mpr ⟨hkind, rfl⟩
    | array hs => exact hs

/-! ## 5. An equivalence -/

theorem Comparable.same_symm (hv : h.Comparable v) (hw : h.Comparable w) (hs : h.Same v w) :
    h.Same w v := by
  induction hv using Comparable.induction generalizing w with
  | plain hv hnone =>
    obtain ⟨hkind, ha⟩ := (hv.same_iff hw).mp hs
    refine (hw.same_iff hv).mpr ⟨hkind.symm, ?_⟩
    cases ha with
    | refl => exact .refl _
    | number hv hw => exact .number hw hv
    | array _ => cases hnone
  | array ha ih =>
    cases w with
    | array b =>
      obtain ⟨hsize, hpairs⟩ := ha.grounded.same_array.mp hs
      refine hw.grounded.same_array.mpr ⟨hsize.symm, fun i hi hi' => ?_⟩
      exact ih _ (Array.getElem_mem hi') (hw.of_mem (Array.getElem_mem hi)) (hpairs i hi' hi)
    | _ => cases hs.kind

theorem Comparable.same_trans (hu : h.Comparable u) (hv : h.Comparable v) (hw : h.Comparable w)
    (huv : h.Same u v) (hvw : h.Same v w) : h.Same u w := by
  induction hu using Comparable.induction generalizing v w with
  | plain hu hnone =>
    obtain ⟨hkind, ha⟩ := (hu.same_iff hv).mp huv
    obtain ⟨hkind', ha'⟩ := (hv.same_iff hw).mp hvw
    refine (hu.same_iff hw).mpr ⟨hkind.trans hkind', ?_⟩
    cases ha with
    | refl => exact ha'
    | number hp hq =>
      cases ha' with
      | refl => exact .number hp hq
      | number hq' hr => exact .number (hp.trans (hq.symm.trans hq')) hr
      | array _ => cases hq
    | array _ => cases hnone
  | array ha ih =>
    cases v with
    | array b =>
      cases w with
      | array c =>
        obtain ⟨hsize, hpairs⟩ := ha.grounded.same_array.mp huv
        obtain ⟨hsize', hpairs'⟩ := hv.grounded.same_array.mp hvw
        refine ha.grounded.same_array.mpr ⟨hsize.trans hsize', fun i hi hi'' => ?_⟩
        have hi' := hsize ▸ hi
        exact ih _ (Array.getElem_mem hi) (hv.of_mem (Array.getElem_mem hi'))
          (hw.of_mem (Array.getElem_mem hi'')) (hpairs i hi hi') (hpairs' i hi' hi'')
      | _ => cases hvw.kind
    | _ => cases huv.kind

theorem Comparable.equals_refl (hv : h.Comparable v) : h.Equals v v :=
  (hv.equals_iff hv).mpr (.refl v)

theorem Comparable.equals_symm (hv : h.Comparable v) (hw : h.Comparable w)
    (he : h.Equals v w) : h.Equals w v := by
  refine (hw.equals_iff hv).mpr ?_
  cases (hv.equals_iff hw).mp he with
  | refl => exact .refl _
  | number hv hw => exact .number hw hv
  | array hs => exact .array (hv.same_symm hw hs)

theorem Comparable.equals_trans (hu : h.Comparable u) (hv : h.Comparable v) (hw : h.Comparable w)
    (huv : h.Equals u v) (hvw : h.Equals v w) : h.Equals u w := by
  refine (hu.equals_iff hw).mpr ?_
  cases (hu.equals_iff hv).mp huv with
  | refl => exact (hv.equals_iff hw).mp hvw
  | number hp hq =>
    cases (hv.equals_iff hw).mp hvw with
    | refl => exact .number hp hq
    | number hq' hr => exact .number (hp.trans (hq.symm.trans hq')) hr
    | array _ => cases hq
  | array hs =>
    cases (hv.equals_iff hw).mp hvw with
    | refl => exact .array hs
    | number hq _ => cases hq
    | array hs' => exact .array (hu.same_trans hv hw hs hs')

/-- **Arrays are equal if their elements are** and are of the same kinds, position by position. -/
theorem Comparable.equals_array_iff (ha : h.Comparable (.array a)) (hb : h.Comparable (.array b)) :
    h.Equals (.array a) (.array b)
      ↔ h.Elementwise (fun v w => v.kind = w.kind ∧ h.Equals v w) a b := by
  have hsame : h.Equals (.array a) (.array b) ↔ h.Same (.array a) (.array b) := by
    rw [ha.equals_iff hb, ha.same_iff hb]
    exact ⟨fun hagree => ⟨rfl, hagree⟩, And.right⟩
  rw [hsame, ha.grounded.same_array]
  refine and_congr_right fun _ => forall₃_congr fun i hi hi' => ?_
  have hv := ha.of_mem (Array.getElem_mem hi)
  have hw := hb.of_mem (Array.getElem_mem hi')
  show _ ↔ _ ∧ h.Equals _ _
  rw [hv.same_iff hw, hv.equals_iff hw]

end Heap

/-! ## 6. Equality in an expression -/

namespace Expression

open Bytecode

section

variable {h : Heap} {a b : Value}

/-- Both operations have an answer, and one answers the contrary of the other. -/
theorem binary_equal (ha : h.Comparable a) :
    ∃ answer, (answer = true ↔ h.Equals a b)
      ∧ binary h .equal a b = .ok (.boolean answer)
      ∧ binary h .notEqual a b = .ok (.boolean !answer) := by
  obtain ⟨answer, hanswer⟩ := Option.ne_none_iff_exists'.mp (ha.grounded.equal?_ne_none b)
  refine ⟨answer, ?_, ?_, ?_⟩
  · unfold Heap.Equals
    rw [hanswer, Option.some.injEq]
  · show (orEndless (h.equal? a b)).map Value.boolean = _
    rw [hanswer]
    rfl
  · show ((orEndless (h.equal? a b)).map fun same => Value.boolean !same) = _
    rw [hanswer]
    rfl

end

/-- **Equality in an expression**, wherever the operation stands in it, of values that can be
    compared. It has an answer, and inequality answers the contrary. It is reflexive, symmetric and
    transitive. Numbers are equal exactly if they amount to the same, in whatever kinds they are
    held, and arrays exactly if they have the same size and their elements are equal and of the same
    kinds, one by one. -/
theorem equality_laws {c : Context} {w : Workspace} {below : List Value} {u v x : Value}
    (ho : Operands c w u v below) (hu : w.heap.Comparable u) (hv : w.heap.Comparable v)
    (hx : w.heap.Comparable x) :
    (∃ answer, (answer = true ↔ w.heap.Equals u v)
      ∧ step c (operator .equal) w = leaving w below (.ok (.boolean answer))
      ∧ step c (operator .notEqual) w = leaving w below (.ok (.boolean !answer)))
    ∧ w.heap.Equals u u
    ∧ (w.heap.Equals u v → w.heap.Equals v u)
    ∧ (w.heap.Equals u v → w.heap.Equals v x → w.heap.Equals u x)
    ∧ (∀ p q, u.amount? = some p → v.amount? = some q → (w.heap.Equals u v ↔ p = q))
    ∧ ∀ a b, u = .array a → v = .array b → (w.heap.Equals u v
        ↔ w.heap.Elementwise (fun y z => y.kind = z.kind ∧ w.heap.Equals y z) a b) := by
  refine ⟨?_, hu.equals_refl, hu.equals_symm hv, hu.equals_trans hv hx,
    fun p q => Heap.equals_iff_of_amount?, ?_⟩
  · obtain ⟨answer, hiff, hequal, hnotEqual⟩ := binary_equal (b := v) hu
    refine ⟨answer, hiff, ?_, ?_⟩
    · rw [ho.step rfl, hequal]
    · rw [ho.step rfl, hnotEqual]
  · rintro a b rfl rfl
    exact hu.equals_array_iff hv

/-- Two arrays of the same content, one level down in two others. -/
def twinHeap : Heap :=
  ⟨#[#[.int 1, .boolean true], #[.int 1, .boolean true], #[.array ⟨0⟩], #[.array ⟨1⟩]]⟩

theorem equality_laws_twins :
    let c := literalContext [] #[.array ⟨2⟩]
    let w : Workspace := ⟨{ values := [.array ⟨3⟩, .global 0], capacity := 3 }, twinHeap⟩
    Operands c w (.array ⟨2⟩) (.array ⟨3⟩) []
    ∧ twinHeap.Comparable (.array ⟨2⟩) ∧ twinHeap.Comparable (.array ⟨3⟩)
    ∧ twinHeap.Comparable (.int 1)
    ∧ step c (operator .equal) w = leaving w [] (.ok (.boolean true)) := by
  intro c w
  have ho : Operands c w (.array ⟨2⟩) (.array ⟨3⟩) [] := ⟨⟨_, _, rfl, rfl, rfl⟩, by decide⟩
  have hone : twinHeap.Comparable (.int 1) := .number rfl
  have hinner : ∀ v ∈ [Value.int 1, .boolean true], twinHeap.Comparable v := by
    simpa using ⟨hone, .boolean true⟩
  have hleft : twinHeap.Comparable (.array ⟨2⟩) :=
    .of_elements [.array ⟨0⟩] rfl (by simpa using .of_elements _ rfl hinner)
  have hright : twinHeap.Comparable (.array ⟨3⟩) :=
    .of_elements [.array ⟨1⟩] rfl (by simpa using .of_elements _ rfl hinner)
  obtain ⟨⟨answer, hiff, hstep, _⟩, _⟩ := equality_laws ho hleft hright hone
  have hequals : twinHeap.Equals (.array ⟨2⟩) (.array ⟨3⟩) := by
    unfold Heap.Equals
    decide
  rw [hiff.mpr hequals] at hstep
  exact ⟨ho, hleft, hright, hone, hstep⟩

/-- **Arrays differ although their elements are equal**: an integer and a number of 64 bits that
    amount to the same. -/
theorem not_equal_elementwise :
    let h : Heap := ⟨#[#[.int 1], #[.double (.ofInt 1)]]⟩
    let c := literalContext [.array [.int 1], .array [.double (.ofInt 1)]] #[]
    h.Comparable (.array ⟨0⟩) ∧ h.Comparable (.array ⟨1⟩)
    ∧ h.Elementwise h.Equals ⟨0⟩ ⟨1⟩
    ∧ ¬ h.Equals (.array ⟨0⟩) (.array ⟨1⟩)
    ∧ evaluate c (encode [.pushConstant 0, .pushConstant 1, operator .equal])
        ⟨{ capacity := 20 }, {}⟩ = .ok (.boolean false, 8) ⟨{ capacity := 20 }, h⟩ := by
  intro h c
  have hone : (Value.double (.ofInt 1)).amount? = some (.finite (1 : Int)) :=
    Binary.amount?_ofInt (i := 1) (by decide)
  have hleft : h.Comparable (.array ⟨0⟩) :=
    .of_elements [.int 1] rfl (by simpa using .number rfl)
  have hright : h.Comparable (.array ⟨1⟩) :=
    .of_elements [.double (.ofInt 1)] rfl (by simpa using .number hone)
  refine ⟨hleft, hright, ⟨rfl, fun i hi hi' => ?_⟩, ?_, ?_⟩
  · obtain rfl : i = 0 := Nat.lt_one_iff.mp hi
    exact (Heap.equals_iff_of_amount? (h := h) rfl hone).mpr rfl
  · unfold Heap.Equals
    decide
  · rfl

end Expression

end InstrumentFlow
