import InstrumentFlow.Proofs.Forest.Sound
import Mathlib.Data.Nat.ModEq

/-!
# Handles over a whole history

An entry of a forest counts how often it was emptied, in 32 bits. A handle names an entry and a
count, so what an old handle leads to is a question about how often its entry was emptied since.

* `Forest.standing` -- the count of an entry and whether the entry is in use, and what an
  insertion and a removal make of it;
* `Forest.Request`, `Forest.answered`, `Forest.vacations` -- a history of insertions and removals,
  and how often it empties an entry;
* `Forest.standing_answered` -- after a history an entry has counted on by exactly that;
* `Forest.stale_within_full_turn` -- removed handles lead nowhere before a whole turn of the count;
* `Forest.handle_after_history` -- when a handle leads somewhere again, and when it is given out
  again: after a positive multiple of 2 ^ 32 vacations of its entry, and never otherwise;
* `Forest.not_stale_forever` -- such a history exists.
-/

namespace InstrumentFlow

namespace Forest

/-! ## 1. The standing of an entry -/

/-- The count of an entry and whether it is in use. -/
def standing (f : Forest) (n : Nat) : Option (UInt32 × Bool) :=
  f.entries[n]?.map fun entry => (entry.generation, entry.content.isSome)

/-- A handle leads to an instance if its entry is in use and has its count. -/
theorem contains_iff_standing {f : Forest} {i : InstanceId} :
    f.contains i = true ↔ f.standing i.index = some (i.generation, true) := by
  unfold contains get? standing
  cases f.entries[i.index]? with
  | none => simp
  | some entry =>
    by_cases hg : entry.generation = i.generation <;> simp [hg]

/-- What is read, and what can be removed, is what the forest contains. -/
theorem isSome_remove (f : Forest) (i : InstanceId) : (f.remove i).isSome = f.contains i := by
  unfold remove contains
  cases f.get? i <;> rfl

/-- A change asked of a handle that leads nowhere changes nothing. -/
theorem modify_of_not_contains {f : Forest} {i : InstanceId} (h : f.contains i = false)
    (change : Instance → Instance) : f.modify i change = f := by
  have hkept (entry : Entry) (he : f.entries[i.index]? = some entry) :
      (if entry.generation = i.generation then
        { entry with content := entry.content.map change } else entry) = entry := by
    split
    · next hg =>
      have hnone : entry.content = none := by simpa [contains, get?, he, hg] using h
      obtain ⟨generation, content⟩ := entry
      simp_all
    · rfl
  have hentries : f.entries.modify i.index (fun entry =>
      if entry.generation = i.generation then
        { entry with content := entry.content.map change } else entry) = f.entries := by
    apply Array.ext_getElem?
    intro n
    rw [Array.getElem?_modify]
    split
    · next hn =>
      subst hn
      cases he : f.entries[i.index]? with
      | none => rfl
      | some entry => exact congrArg some (hkept entry he)
    · rfl
  unfold modify
  rw [hentries]

theorem standing_link (f : Forest) (i : InstanceId) (p : Option InstanceId) (n : Nat) :
    (f.link i p).standing n = f.standing n := by
  unfold link
  split
  · split
    · exact entry_modify f _ _ n
    · rfl
  · rfl

theorem standing_unlink (f : Forest) (i : InstanceId) (p : Option InstanceId) (n : Nat) :
    (f.unlink i p).standing n = f.standing n := by
  unfold unlink
  split
  · split
    · exact entry_modify f _ _ n
    · rfl
  · rfl

section Insert

variable {f : Forest} (hf : f.FreeSound) (s : Instance)
include hf

/-- **An insertion** takes a new entry, or one that is not in use, and leaves its count alone. -/
theorem standing_inserted :
    (f.standing (f.insert s).1.index = none ∧ f.free = [])
      ∨ f.standing (f.insert s).1.index = some ((f.insert s).1.generation, false)
        ∧ f.free.head? = some (f.insert s).1.index := by
  show (f.standing (f.place s).1.index = none ∧ f.free = [])
      ∨ f.standing (f.place s).1.index = some ((f.place s).1.generation, false)
        ∧ f.free.head? = some (f.place s).1.index
  unfold place
  split
  · next index free h =>
    obtain ⟨entry, he, hc⟩ := (hf.mem_iff index).mp (by rw [h]; exact List.mem_cons_self)
    exact Or.inr ⟨by simp [standing, he, hc], by rw [h]; rfl⟩
  · next h => exact Or.inl ⟨by simp [standing], h⟩

theorem standing_insert (n : Nat) :
    (f.insert s).2.standing n
      = if n = (f.insert s).1.index then some ((f.insert s).1.generation, true)
        else f.standing n := by
  rw [insert_snd, standing_link]
  show (f.place s).2.standing n
      = if n = (f.place s).1.index then some ((f.place s).1.generation, true) else f.standing n
  unfold place
  split
  · next index free h =>
    obtain ⟨entry, he, -⟩ := (hf.mem_iff index).mp (by rw [h]; exact List.mem_cons_self)
    have hlt : index < f.entries.size := (Array.getElem?_eq_some_iff.mp he).1
    by_cases hn : n = index
    · subst hn
      simp [standing, hlt]
    · simp [standing, hn, Array.getElem?_setIfInBounds_ne (Ne.symm hn)]
  · by_cases hn : n = f.entries.size
    · subst hn
      simp [standing]
    · simp [standing, hn, Array.getElem?_push]

theorem contains_inserted : (f.insert s).2.contains (f.insert s).1 = true := by
  rw [contains_iff_standing, standing_insert hf, if_pos rfl]

/-- A handle with the count of a known entry is given out if and only if the entry is the one
    vacated last. -/
theorem insert_eq_iff {i : InstanceId} {used : Bool}
    (h : f.standing i.index = some (i.generation, used)) :
    (f.insert s).1 = i ↔ f.free.head? = some i.index := by
  rcases standing_inserted hf s with ⟨hnone, hfree⟩ | ⟨hs, hhead⟩
  · rw [hfree]
    constructor
    · rintro rfl
      rw [hnone] at h
      cases h
    · intro h
      cases h
  · rw [hhead]
    constructor
    · rintro rfl
      rfl
    · intro hi
      have hindex : (f.insert s).1.index = i.index := Option.some.inj hi
      rw [hindex, h] at hs
      have hgeneration := congrArg Prod.fst (Option.some.inj hs)
      generalize (f.insert s).1 = k at hindex hgeneration
      cases k
      cases i
      simp_all

end Insert

/-- **A removal** empties the entry, which counts on. -/
theorem standing_remove {f f' : Forest} {i : InstanceId} {s : Instance}
    (h : f.remove i = some (s, f')) (n : Nat) :
    f'.standing n = if n = i.index then some (i.generation + 1, false) else f.standing n := by
  obtain ⟨hi, rfl⟩ := remove_eq_some_iff.mp h
  have hlt := index_lt_of_get? hi
  rw [standing_unlink]
  by_cases hn : n = i.index
  · subst hn
    simp [standing, vacate, hlt]
  · simp [standing, vacate, hn, Array.getElem?_setIfInBounds_ne (Ne.symm hn)]

theorem freeSound_insert {f : Forest} (hf : f.FreeSound) (s : Instance) :
    (f.insert s).2.FreeSound :=
  freeSound_link (freeSound_place hf s) _ _

theorem freeSound_remove {f f' : Forest} {i : InstanceId} {s : Instance} (hf : f.FreeSound)
    (h : f.remove i = some (s, f')) : f'.FreeSound := by
  obtain ⟨hi, rfl⟩ := remove_eq_some_iff.mp h
  exact freeSound_unlink (freeSound_vacate hi hf) _ _

/-! ## 2. Histories -/

/-- A change of shape that is asked of a forest. -/
inductive Request where
  | insert (s : Instance)
  | remove (i : InstanceId)

/-- The forest after a request. The removal of what is not there changes nothing. -/
def answer (f : Forest) : Request → Forest
  | .insert s => (f.insert s).2
  | .remove i =>
    match f.remove i with
    | some (_, f') => f'
    | none => f

/-- The forest after a history. -/
def answered (f : Forest) : List Request → Forest
  | [] => f
  | r :: rs => (f.answer r).answered rs

/-- Whether a request empties an entry. -/
def Request.empties (f : Forest) (n : Nat) : Request → Bool
  | .insert _ => false
  | .remove i => i.index == n && f.contains i

/-- How often a history empties an entry. -/
def vacations (f : Forest) (n : Nat) : List Request → Nat
  | [] => 0
  | r :: rs => (if r.empties f n then 1 else 0) + (f.answer r).vacations n rs

theorem vacations_cons (f : Forest) (n : Nat) (r : Request) (rs : List Request) :
    f.vacations n (r :: rs)
      = (if r.empties f n then 1 else 0) + (f.answer r).vacations n rs := rfl

theorem answered_append (f : Forest) (rs rs' : List Request) :
    f.answered (rs ++ rs') = (f.answered rs).answered rs' := by
  induction rs generalizing f with
  | nil => rfl
  | cons r rs ih => exact ih (f.answer r)

theorem vacations_append (f : Forest) (n : Nat) (rs rs' : List Request) :
    f.vacations n (rs ++ rs') = f.vacations n rs + (f.answered rs).vacations n rs' := by
  induction rs generalizing f with
  | nil => simp [vacations, answered]
  | cons r rs ih =>
    simp only [List.cons_append, vacations, answered, ih]
    omega

theorem freeSound_answer {f : Forest} (hf : f.FreeSound) (r : Request) :
    (f.answer r).FreeSound := by
  cases r with
  | insert s => exact freeSound_insert hf s
  | remove i =>
    cases h : f.remove i with
    | none => simpa [answer, h] using hf
    | some gone => simpa [answer, h] using freeSound_remove hf (s := gone.1) h

theorem freeSound_answered {f : Forest} (hf : f.FreeSound) (rs : List Request) :
    (f.answered rs).FreeSound := by
  induction rs generalizing f with
  | nil => exact hf
  | cons r rs ih => exact ih (freeSound_answer hf r)

/-- **One request** lets an entry count on if it empties the entry, and only then; an entry in
    use stays in use until it is emptied. -/
theorem standing_answer {f : Forest} (hf : f.FreeSound) {n : Nat} {g : UInt32} {used : Bool}
    (h : f.standing n = some (g, used)) (r : Request) :
    ∃ used', (f.answer r).standing n = some (g + (if r.empties f n then 1 else 0), used')
      ∧ (r.empties f n = false → used = true → used' = true) := by
  cases r with
  | insert s =>
    have hs := standing_insert hf s n
    show ∃ used', (f.insert s).2.standing n = some (g + 0, used') ∧ _
    rw [UInt32.add_zero, hs]
    split
    · next hn =>
      -- the entry was known, so it is one that was vacated, with the same count
      rcases standing_inserted hf s with ⟨hnone, -⟩ | ⟨hold, -⟩
      · rw [← hn, h] at hnone
        cases hnone
      · rw [← hn, h] at hold
        obtain ⟨rfl, -⟩ := Prod.mk.inj (Option.some.inj hold)
        exact ⟨true, rfl, fun _ _ => rfl⟩
    · exact ⟨used, h, fun _ => id⟩
  | remove i =>
    have hsome := isSome_remove f i
    cases hr : f.remove i with
    | none =>
      rw [hr] at hsome
      exact ⟨used, by simp [answer, Request.empties, hr, ← hsome, h], fun _ => id⟩
    | some gone =>
      obtain ⟨s, f'⟩ := gone
      rw [hr] at hsome
      have hstanding := standing_remove hr n
      by_cases hn : n = i.index
      · have hi := contains_iff_standing.mp hsome.symm
        rw [← hn, h] at hi
        obtain ⟨rfl, -⟩ := Prod.mk.inj (Option.some.inj hi)
        rw [if_pos hn] at hstanding
        have hempties : Request.empties f n (.remove i) = true := by
          simp [Request.empties, hn, ← hsome]
        refine ⟨false, ?_, fun h => ?_⟩
        · simp [answer, hr, hstanding, hempties]
        · rw [hempties] at h
          cases h
      · rw [if_neg hn, h] at hstanding
        exact ⟨used, by simp [answer, Request.empties, hr, hstanding, Ne.symm hn], fun _ => id⟩

/-- **A history** lets an entry count on by the number of times it empties the entry. -/
theorem standing_answered {f : Forest} (hf : f.FreeSound) {n : Nat} {g : UInt32} {used : Bool}
    (h : f.standing n = some (g, used)) (rs : List Request) :
    ∃ used', (f.answered rs).standing n = some (g + UInt32.ofNat (f.vacations n rs), used')
      ∧ (f.vacations n rs = 0 → used = true → used' = true) := by
  induction rs generalizing f g used with
  | nil => exact ⟨used, by simpa [answered, vacations] using h, fun _ => id⟩
  | cons r rs ih =>
    obtain ⟨used₁, h₁, hkept₁⟩ := standing_answer hf h r
    obtain ⟨used₂, h₂, hkept₂⟩ := ih (freeSound_answer hf r) h₁
    refine ⟨used₂, ?_, fun hzero hused => ?_⟩
    · show ((f.answer r).answered rs).standing n = _
      rw [h₂]
      have hcount : UInt32.ofNat (f.vacations n (r :: rs))
          = (if r.empties f n then 1 else 0)
            + UInt32.ofNat ((f.answer r).vacations n rs) := by
        rw [vacations_cons, UInt32.ofNat_add]
        split <;> rfl
      rw [hcount, UInt32.add_assoc]
    · have hboth : (if r.empties f n then 1 else 0) + (f.answer r).vacations n rs = 0 := hzero
      cases hr : r.empties f n with
      | true => simp [hr] at hboth
      | false => exact hkept₂ (by simpa [hr] using hboth) (hkept₁ hr hused)

/-! ## 3. When a handle comes back -/

/-- A 32-bit count is the same again after whole turns. -/
theorem add_ofNat_eq_self_iff (g : UInt32) (n : Nat) :
    g + UInt32.ofNat n = g ↔ 2 ^ 32 ∣ n := by
  rw [← UInt32.toNat_inj, UInt32.toNat_add, UInt32.toNat_ofNat']
  have := g.toNat_lt
  omega

section Return

variable {f : Forest} (hf : f.FreeSound) {i : InstanceId} (hi : f.contains i = true)
  (rs : List Request)
include hf hi

theorem contains_answered_iff :
    (f.answered rs).contains i = true
      ↔ (∃ g, (f.answered rs).standing i.index = some (g, true))
        ∧ 2 ^ 32 ∣ f.vacations i.index rs := by
  obtain ⟨used, h, -⟩ := standing_answered hf (contains_iff_standing.mp hi) rs
  rw [contains_iff_standing, h, ← add_ofNat_eq_self_iff i.generation]
  simp [and_comm]

theorem insert_answered_eq_iff (t : Instance) :
    ((f.answered rs).insert t).1 = i
      ↔ (f.answered rs).free.head? = some i.index ∧ 2 ^ 32 ∣ f.vacations i.index rs := by
  obtain ⟨used, h, -⟩ := standing_answered hf (contains_iff_standing.mp hi) rs
  have hf' := freeSound_answered hf rs
  rw [← add_ofNat_eq_self_iff i.generation]
  constructor
  · intro hins
    rcases standing_inserted hf' t with ⟨hnone, -⟩ | ⟨hold, hhead⟩
    · rw [hins, h] at hnone
      cases hnone
    · rw [hins, h] at hold
      rw [hins] at hhead
      exact ⟨hhead, congrArg Prod.fst (Option.some.inj hold)⟩
  · rintro ⟨hhead, hg⟩
    rw [hg] at h
    exact (insert_eq_iff hf' t h).mpr hhead

/-- Without a vacation of its entry a handle stays good. -/
theorem contains_answered_of_vacations_eq_zero (h : f.vacations i.index rs = 0) :
    (f.answered rs).contains i = true := by
  obtain ⟨used, hs, hkept⟩ := standing_answered hf (contains_iff_standing.mp hi) rs
  rw [contains_iff_standing, hs, h, hkept h rfl]
  simp

/-- A handle is given out again only after a whole turn of the count. -/
theorem le_vacations_of_insert {t : Instance} (h : ((f.answered rs).insert t).1 = i) :
    2 ^ 32 ≤ f.vacations i.index rs := by
  obtain ⟨-, hturns⟩ := (insert_answered_eq_iff hf hi rs t).mp h
  refine Nat.le_of_dvd (Nat.pos_of_ne_zero fun hzero => ?_) hturns
  -- what is still live is not given out
  have hlive := contains_answered_of_vacations_eq_zero hf hi rs hzero
  obtain ⟨u, hu⟩ := contains_iff.mp hlive
  have hfresh := get?_insert_fresh (freeSound_answered hf rs) (s := t)
  rw [h, hu] at hfresh
  cases hfresh

/-- A handle that was removed leads somewhere only after a whole turn of the count. -/
theorem le_vacations_of_contains {earlier later : List Request}
    (hsplit : rs = earlier ++ .remove i :: later) (h : (f.answered rs).contains i = true) :
    2 ^ 32 ≤ f.vacations i.index rs := by
  obtain ⟨-, hturns⟩ := (contains_answered_iff hf hi rs).mp h
  refine Nat.le_of_dvd (Nat.pos_of_ne_zero fun hzero => ?_) hturns
  -- what was never vacated was live when it was asked to go, and went
  rw [hsplit, vacations_append] at hzero
  have hlive := contains_answered_of_vacations_eq_zero hf hi earlier (by omega)
  have hone : Request.empties (f.answered earlier) i.index (.remove i) = true := by
    simp [Request.empties, hlive]
  rw [vacations, hone, if_pos rfl] at hzero
  omega

/-- **Stale handles stay stale** while their entry is not emptied 2 ^ 32 times. -/
theorem stale_within_full_turn (hfew : f.vacations i.index (.remove i :: rs) < 2 ^ 32) :
    (f.answered (.remove i :: rs)).get? i = none
      ∧ (f.answered (.remove i :: rs)).remove i = none
      ∧ ∀ t, ((f.answered (.remove i :: rs)).insert t).1 ≠ i := by
  have hnot : (f.answered (.remove i :: rs)).contains i = false := by
    refine Bool.eq_false_iff.mpr fun h => ?_
    exact absurd hfew (Nat.not_lt.mpr (le_vacations_of_contains hf hi _ (List.nil_append _).symm h))
  refine ⟨?_, ?_, fun t ht => ?_⟩
  · exact Option.isNone_iff_eq_none.mp (Option.isSome_eq_false_iff.mp hnot)
  · have hremoved := (isSome_remove (f.answered (.remove i :: rs)) i).trans hnot
    exact Option.isNone_iff_eq_none.mp (Option.isSome_eq_false_iff.mp hremoved)
  · exact absurd hfew (Nat.not_lt.mpr (le_vacations_of_insert hf hi _ ht))

end Return

/-- **When a handle comes back.** After a handle was given out, in any history: it leads to an
    instance (is read, and can be removed) exactly while its entry is in use and has been emptied
    a multiple of 2 ^ 32 times since, and it is given out again exactly when its entry is the one
    vacated last and has been emptied a multiple of 2 ^ 32 times. Once it has been removed, either
    takes at least 2 ^ 32 vacations of its entry. -/
theorem handle_after_history (before after : List Request) (s : Instance) :
    let i := ((answered {} before).insert s).1
    let f := answered {} (before ++ [.insert s])
    let f' := f.answered after
    let n := f.vacations i.index after
    ((f'.get? i).isSome = f'.contains i ∧ (f'.remove i).isSome = f'.contains i
        ∧ ∀ change, f'.contains i = false → f'.modify i change = f')
      ∧ (f'.contains i = true ↔ (∃ g, f'.standing i.index = some (g, true)) ∧ 2 ^ 32 ∣ n)
      ∧ (∀ t, (f'.insert t).1 = i ↔ f'.free.head? = some i.index ∧ 2 ^ 32 ∣ n)
      ∧ (∀ t, (f'.insert t).1 = i → 2 ^ 32 ≤ n)
      ∧ ∀ earlier later, after = earlier ++ .remove i :: later →
          f'.contains i = true → 2 ^ 32 ≤ n := by
  intro i f f' n
  have hempty : ({} : Forest).FreeSound := sound_empty.free
  have hf : f.FreeSound := freeSound_answered hempty _
  have hi : f.contains i = true := by
    show (answered {} (before ++ [.insert s])).contains _ = true
    rw [answered_append]
    exact contains_inserted (freeSound_answered hempty before) s
  exact ⟨⟨rfl, isSome_remove f' i, fun change h => modify_of_not_contains h change⟩,
    contains_answered_iff hf hi after, insert_answered_eq_iff hf hi after,
    fun _ ht => le_vacations_of_insert hf hi after ht,
    fun _ _ hsplit h => le_vacations_of_contains hf hi after hsplit h⟩

/-! ## 4. A history through all generations -/

/-- One root after the other in the first entry, from a generation on; each is removed before the
    next one comes. -/
def turnover (s : Instance) : Nat → Nat → List Request
  | _, 0 => []
  | g, n + 1 => .insert s :: .remove ⟨0, UInt32.ofNat g⟩ :: turnover s (g + 1) n

/-- The forest whose only entry was emptied so many times. -/
def leftover (g : Nat) : Forest :=
  { entries := #[⟨UInt32.ofNat g, none⟩], free := [0], roots := [], live := 0 }

theorem answered_turnover {s : Instance} (hs : s.parent = none) (g n : Nat) :
    (leftover g).answered (turnover s g n) = leftover (g + n) := by
  induction n generalizing g with
  | zero => rfl
  | succ n ih =>
    have hround : ((leftover g).answer (.insert s)).answer (.remove ⟨0, UInt32.ofNat g⟩)
        = leftover (g + 1) := by
      simp [answer, insert, place, link, remove, get?, vacate, unlink, hs, leftover,
        UInt32.ofNat_add]
    rw [turnover, answered, answered, hround, ih, Nat.add_right_comm, Nat.add_assoc]

/-- A whole turn of the count leaves nothing to tell. -/
theorem leftover_full_turn : leftover (2 ^ 32) = leftover 0 := by
  have hcount : UInt32.ofNat (2 ^ 32) = UInt32.ofNat 0 := by
    have hturn := (add_ofNat_eq_self_iff 0 (2 ^ 32)).mpr (Nat.dvd_refl _)
    rwa [UInt32.zero_add] at hturn
  unfold leftover
  rw [hcount]

theorem exists_full_turn {s : Instance} (hs : s.parent = none) :
    ∃ after, (leftover 1).answered after = leftover 0 :=
  ⟨turnover s 1 (2 ^ 32 - 1), (answered_turnover hs 1 (2 ^ 32 - 1)).trans leftover_full_turn⟩

/-- **A stale handle can lead to another instance.** It is not so that a removed handle leads
    nowhere ever after, nor that it is never given out again. -/
theorem not_stale_forever :
    (¬ ∀ (before after : List Request) (i : InstanceId), (answered {} before).contains i = true →
        ((answered {} before).answered (.remove i :: after)).get? i = none)
      ∧ ¬ ∀ (before after : List Request) (i : InstanceId) (t : Instance),
        (answered {} before).contains i = true →
          (((answered {} before).answered (.remove i :: after)).insert t).1 ≠ i := by
  let s : Instance :=
    { flow := 0, isAction := false, parent := none, values := #[], inputCount := 0,
      progress := #[], async := #[] }
  obtain ⟨after, hafter⟩ := exists_full_turn (s := s) rfl
  have hi : (answered {} [.insert s]).contains ⟨0, 0⟩ = true := rfl
  have hfirst : (answered {} [.insert s]).answer (.remove ⟨0, 0⟩) = leftover 1 := by
    simp [answered, answer, insert, place, link, remove, get?, vacate, unlink, leftover, s]
  have hturn : (answered {} [.insert s]).answered (.remove ⟨0, 0⟩ :: after) = leftover 0 := by
    rw [answered, hfirst, hafter]
  constructor
  · intro hall
    have hnone := hall [.insert s] (after ++ [.insert s]) ⟨0, 0⟩ hi
    rw [← List.cons_append, answered_append, hturn] at hnone
    cases hnone
  · intro hall
    refine hall [.insert s] after ⟨0, 0⟩ s hi ?_
    rw [hturn]
    rfl

end Forest

end InstrumentFlow
