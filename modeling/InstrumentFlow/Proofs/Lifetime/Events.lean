import InstrumentFlow.Proofs.Engine.Change
import Mathlib.Data.Int.CardIntervalMod

/-!
# Beginnings and reported ends

How the entries of the forest and the journal go together.

* `Engine.births`, `Engine.reports` -- how often a handle was reported as created, as destroyed;
* `Engine.Happening` -- what one change does to the entries and to the lives;
* `Change.happening` -- every change is one of these;
* `Counted`, `Counted.births_le_one_iff` -- a handle begins once for every turn of the generations
  of its entry;
* `Turn`, `Recorded`, `tally` -- one handle: what changes mean for it, what is recorded of it, and
  how often its end is reported, counting the one to come.
-/

namespace InstrumentFlow

/-! ## 1. Events that are counted -/

namespace Event

/-- The beginning of an instance with this handle. -/
def isBirth (i : InstanceId) : Event → Bool
  | created j _ => j == i
  | _ => false

/-- A beginning in this entry. -/
def isUse (n : Nat) : Event → Bool
  | created j _ => j.index == n
  | _ => false

/-- A report of the end of the instance with this handle. -/
def isReport (i : InstanceId) : Event → Bool
  | destroyed j => j == i
  | _ => false

/-- A component begins to wait, or its waiting ends. -/
def isMark : Event → Bool
  | awaited _ _ _ | released _ _ _ => true
  | _ => false

end Event

namespace Engine

/-- How often a handle was reported as created. -/
def births (e : Engine) (i : InstanceId) : Nat := e.journal.countP (Event.isBirth i)

/-- How often an entry came into use. -/
def uses (e : Engine) (n : Nat) : Nat := e.journal.countP (Event.isUse n)

/-- How often a handle was reported as destroyed. -/
def reports (e : Engine) (i : InstanceId) : Nat := e.journal.countP (Event.isReport i)

/-- Events of lives are counted in the lives. -/
theorem countP_lives (e : Engine) {p : Event → Bool} (hp : ∀ event, p event = true →
    event.isLife = true) : e.lives.countP p = e.journal.countP p := by
  unfold lives
  rw [List.countP_filter]
  refine List.countP_congr fun event _ => ?_
  rw [Bool.and_eq_true]
  exact ⟨And.left, fun h => ⟨h, hp event h⟩⟩

theorem births_eq_lives (e : Engine) (i : InstanceId) :
    e.births i = e.lives.countP (Event.isBirth i) :=
  (e.countP_lives fun event h => by cases event <;> first | rfl | cases h).symm

theorem uses_eq_lives (e : Engine) (n : Nat) : e.uses n = e.lives.countP (Event.isUse n) :=
  (e.countP_lives fun event h => by cases event <;> first | rfl | cases h).symm

theorem reports_eq_lives (e : Engine) (i : InstanceId) :
    e.reports i = e.lives.countP (Event.isReport i) :=
  (e.countP_lives fun event h => by cases event <;> first | rfl | cases h).symm

/-! ## 2. Entries -/

theorem contains_iff_entryUse (e : Engine) (i : InstanceId) :
    e.forest.contains i = true ↔ e.entryUse i.index = some (i.generation, true) := by
  unfold entryUse
  rw [Forest.contains_iff, Option.map_eq_some_iff]
  constructor
  · rintro ⟨s, hs⟩
    exact ⟨_, Forest.get?_eq_some_iff.mp hs, rfl⟩
  · rintro ⟨⟨generation, content⟩, he, hu⟩
    obtain ⟨rfl, hc⟩ := Prod.mk.inj hu
    obtain ⟨s, rfl⟩ := Option.isSome_iff_exists.mp hc
    exact ⟨s, Forest.get?_eq_some_iff.mpr he⟩

theorem contains_eq_entryUse (e : Engine) (i : InstanceId) :
    e.forest.contains i = (e.entryUse i.index == some (i.generation, true)) := by
  rw [Bool.eq_iff_iff, contains_iff_entryUse, beq_iff_eq]

/-- Links do not change the use of entries. -/
theorem entryUse_link (e : Engine) (f : Forest) (i : InstanceId) (p : Option InstanceId) (n : Nat) :
    { e with forest := f.link i p }.entryUse n = { e with forest := f }.entryUse n := by
  unfold Forest.link
  split
  · split
    · exact Forest.entry_modify f _ _ n
    · rfl
  · rfl

theorem entryUse_unlink (e : Engine) (f : Forest) (i : InstanceId) (p : Option InstanceId)
    (n : Nat) :
    { e with forest := f.unlink i p }.entryUse n = { e with forest := f }.entryUse n := by
  unfold Forest.unlink
  split
  · split
    · exact Forest.entry_modify f _ _ n
    · rfl
  · rfl

/-- A placed instance has the entry that its handle names, in the generation that was due. -/
theorem entryUse_place {e : Engine} (hf : e.forest.FreeSound) (s : Instance) :
    let i := (e.forest.place s).1
    (e.entryUse i.index = none ∧ i.generation = 0
      ∨ e.entryUse i.index = some (i.generation, false))
    ∧ ∀ n, { e with forest := (e.forest.place s).2 }.entryUse n
        = if n = i.index then some (i.generation, true) else e.entryUse n := by
  unfold Forest.place
  split
  · next index free h =>
    obtain ⟨⟨generation, content⟩, he, hc⟩ :=
      (hf.mem_iff index).mp (by rw [h]; exact List.mem_cons_self)
    obtain ⟨hlt, hget⟩ := Array.getElem?_eq_some_iff.mp he
    cases hc
    refine ⟨Or.inr ?_, fun n => ?_⟩
    · simp [entryUse, he]
    · by_cases hn : n = index
      · subst hn
        simp [entryUse, hlt]
      · simp [entryUse, Array.getElem?_setIfInBounds_ne (Ne.symm hn), hn]
  · refine ⟨Or.inl ⟨?_, rfl⟩, fun n => ?_⟩
    · simp [entryUse]
    · by_cases hn : n = e.forest.entries.size
      · subst hn
        simp [entryUse]
      · simp [entryUse, Array.getElem?_push, hn]

theorem entryUse_vacate {e : Engine} {i : InstanceId} {s : Instance} (hs : e.instance? i = some s)
    (n : Nat) :
    { e with forest := e.forest.vacate i }.entryUse n
      = if n = i.index then some (i.generation + 1, false) else e.entryUse n := by
  have hlt := Forest.index_lt_of_get? hs
  by_cases hn : n = i.index
  · subst hn
    simp [entryUse, Forest.vacate, hlt]
  · simp [entryUse, Forest.vacate, Array.getElem?_setIfInBounds_ne (Ne.symm hn), hn]

/-! ## 3. What happens to lives -/

/-- **What one change does** to the lives and to the use of the entries. -/
inductive Happening (e e' : Engine) : Prop
  | nothing (hl : e'.lives = e.lives) (hu : ∀ n, e'.entryUse n = e.entryUse n)
  | mark {event : Event} (hm : event.isMark = true) (hl : e'.lives = event :: e.lives)
      (hu : ∀ n, e'.entryUse n = e.entryUse n)
  /-- An instance begins in an entry that is new or vacated, in the generation that is due. -/
  | birth {i : InstanceId} {flow : Nat} {found : Reading}
      (hl : e'.lives = @Event.created i flow found :: e.lives)
      (hn : e.entryUse i.index = none ∧ i.generation = 0
        ∨ e.entryUse i.index = some (i.generation, false))
      (hu : ∀ n, e'.entryUse n
        = if n = i.index then some (i.generation, true) else e.entryUse n)
  | death {i : InstanceId} (hl : e'.lives = .destroyed i :: e.lives)
      (hs : e.entryUse i.index = some (i.generation, true))
      (hu : ∀ n, e'.entryUse n
        = if n = i.index then some (i.generation + 1, false) else e.entryUse n)
  /-- The end of an instance that is gone is reported once more. -/
  | echo {i : InstanceId} (hl : e'.lives = .destroyed i :: e.lives)
      (hn : e.forest.contains i = false) (hd : 0 < e.reports i)
      (hu : ∀ n, e'.entryUse n = e.entryUse n)

theorem lives_record {e : Engine} {event : Event} (h : event.isLife = true) :
    (e.record event).lives = event :: e.lives := List.filter_cons_of_pos h

theorem lives_markAsync (e : Engine) (i : InstanceId) (component : Nat) (waits : Bool) :
    (e.markAsync i component waits).lives = e.lives := by
  unfold markAsync
  split
  · rfl
  · split
    · exact List.filter_cons_of_neg Bool.false_ne_true
    · rfl

theorem lives_startAsync (e : Engine) (child : Option InstanceId) (i : InstanceId)
    (component : Nat) :
    (e.startAsync child i component).lives = .awaited child i component :: e.lives :=
  (lives_markAsync _ i component true).trans (lives_record rfl)

theorem lives_clearAsync (e : Engine) (child : Option InstanceId) (i : InstanceId)
    (component : Nat) :
    (e.clearAsync child i component).lives = .released child i component :: e.lives :=
  (lives_markAsync _ i component false).trans (lives_record rfl)

theorem lives_begun (e : Engine) (flow : Nat) (f : Flow) (parent : Option (InstanceId × Nat))
    (isAction : Bool) : (e.begun flow f parent isAction).lives
      = @Event.created (e.nextId flow f parent isAction) flow
          (e.begun flow f parent isAction).content? :: e.lives := lives_record rfl

theorem lives_buried (e : Engine) (i : InstanceId) (forest : Forest) :
    (e.buried i forest).lives = .destroyed i :: e.lives := lives_record (e := e) rfl

theorem lives_echoed (e : Engine) (i : InstanceId) :
    (e.echoed i).lives = .destroyed i :: e.lives := lives_record (e := e) rfl

theorem entryUse_markAsync (e : Engine) (i : InstanceId) (component : Nat) (waits : Bool)
    (n : Nat) : (e.markAsync i component waits).entryUse n = e.entryUse n := by
  unfold markAsync
  split
  · rfl
  · split
    · exact Forest.entry_modify e.forest i _ n
    · rfl

theorem happening_begun {e : Engine} (hf : e.forest.FreeSound) (flow : Nat) (f : Flow)
    (parent : Option (InstanceId × Nat)) (isAction : Bool) :
    Happening e (e.begun flow f parent isAction) := by
  unfold begun
  generalize freshInstance flow f parent isAction e.heap = fresh
  obtain ⟨s, heap⟩ := fresh
  obtain ⟨hn, hu⟩ := entryUse_place hf s
  exact .birth (i := (e.forest.place s).1) (lives_record rfl) hn fun n =>
    (entryUse_link e (e.forest.place s).2 _ _ n).trans (hu n)

theorem happening_buried {e : Engine} {i : InstanceId} {s : Instance} {forest : Forest}
    (hr : e.forest.remove i = some (s, forest)) : Happening e (e.buried i forest) := by
  obtain ⟨hs, rfl⟩ := Forest.remove_eq_some_iff.mp hr
  refine .death (lives_record rfl) ?_ fun n => ?_
  · exact (e.contains_iff_entryUse i).mp (Forest.contains_iff.mpr ⟨s, hs⟩)
  · exact (entryUse_unlink e (e.forest.vacate i) _ _ n).trans (entryUse_vacate hs n)

/-- **Every change is a happening.** -/
theorem Change.happening {closed : Prop} {e e' : Engine} (h : Change closed e e')
    (hi : Inv closed e) : Happening e e' := by
  cases h with
  | touch h => exact .nothing h.calm.lives h.calm.entries
  | @await child i component _ =>
    exact .mark rfl (lives_startAsync e child i component) (entryUse_markAsync _ i component true)
  | release child i component =>
    exact .mark rfl (lives_clearAsync e child i component)
      (entryUse_markAsync _ i component false)
  | begin _ _ _ => exact happening_begun hi.sound.free _ _ _ _
  | bury hr _ => exact happening_buried hr
  | @echo i hn hd =>
    refine .echo (lives_record rfl) ?_ ?_ fun _ => rfl
    · exact Option.isSome_eq_false_iff.mpr (Option.isNone_iff_eq_none.mpr hn)
    · exact List.countP_pos_iff.mpr ⟨_, hd, beq_self_eq_true i⟩

section

variable {e e' : Engine} {event : Event} (hl : e'.lives = event :: e.lives)
include hl

theorem births_of_lives (i : InstanceId) :
    e'.births i = e.births i + if event.isBirth i then 1 else 0 := by
  rw [births_eq_lives, births_eq_lives, hl, List.countP_cons]

theorem uses_of_lives (n : Nat) : e'.uses n = e.uses n + if event.isUse n then 1 else 0 := by
  rw [uses_eq_lives, uses_eq_lives, hl, List.countP_cons]

theorem reports_of_lives (i : InstanceId) :
    e'.reports i = e.reports i + if event.isReport i then 1 else 0 := by
  rw [reports_eq_lives, reports_eq_lives, hl, List.countP_cons]

end

theorem births_congr {e e' : Engine} (hl : e'.lives = e.lives) (i : InstanceId) :
    e'.births i = e.births i := by
  rw [births_eq_lives, births_eq_lives, hl]

theorem uses_congr {e e' : Engine} (hl : e'.lives = e.lives) (n : Nat) : e'.uses n = e.uses n := by
  rw [uses_eq_lives, uses_eq_lives, hl]

theorem reports_congr {e e' : Engine} (hl : e'.lives = e.lives) (i : InstanceId) :
    e'.reports i = e.reports i := by
  rw [reports_eq_lives, reports_eq_lives, hl]

/-! ## 4. Every entry counts its uses -/

/-- **The generation of an entry tells how often it came into use**, as far as it can count, and a
    handle began whenever its generation was due. -/
structure Counted (e : Engine) : Prop where
  unused : ∀ n, e.entryUse n = none → e.uses n = 0
  used : ∀ n generation inUse, e.entryUse n = some (generation, inUse) →
    ∃ k, generation = UInt32.ofNat k ∧ e.uses n = k + if inUse then 1 else 0
  births_eq : ∀ i, e.births i
    = Nat.count (fun k => UInt32.ofNat k = i.generation) (e.uses i.index)

theorem Counted.congr {e e' : Engine} (h : e.Counted) (hb : ∀ i, e'.births i = e.births i)
    (hn : ∀ n, e'.uses n = e.uses n) (hu : ∀ n, e'.entryUse n = e.entryUse n) : e'.Counted where
  unused n := by
    rw [hu, hn]
    exact h.unused n
  used n := by
    rw [hu, hn]
    exact h.used n
  births_eq i := by
    rw [hb, hn]
    exact h.births_eq i

theorem Counted.birth {e e' : Engine} (h : e.Counted) {i : InstanceId} {flow : Nat}
    {found : Reading} (hl : e'.lives = @Event.created i flow found :: e.lives)
    (hn : e.entryUse i.index = none ∧ i.generation = 0
      ∨ e.entryUse i.index = some (i.generation, false))
    (hu : ∀ n, e'.entryUse n = if n = i.index then some (i.generation, true) else e.entryUse n) :
    e'.Counted := by
  -- the generation of the new handle is the number of uses before it
  have hdue : i.generation = UInt32.ofNat (e.uses i.index) := by
    rcases hn with ⟨hn, hg⟩ | hn
    · rw [h.unused _ hn, hg]
      rfl
    · obtain ⟨k, hk, hc⟩ := h.used _ _ _ hn
      rw [hk, hc]
      rfl
  have huses (n : Nat) : e'.uses n = e.uses n + if i.index = n then 1 else 0 := by
    rw [uses_of_lives hl]
    exact congrArg (_ + ·) (if_congr beq_iff_eq rfl rfl)
  have hbirths (j : InstanceId) : e'.births j = e.births j + if i = j then 1 else 0 := by
    rw [births_of_lives hl]
    exact congrArg (_ + ·) (if_congr beq_iff_eq rfl rfl)
  refine ⟨fun n hnone => ?_, fun n generation inUse hsome => ?_, fun j => ?_⟩
  · rw [hu] at hnone
    split at hnone
    · cases hnone
    next hne =>
    rw [huses, if_neg (Ne.symm hne)]
    exact h.unused n hnone
  · rw [hu] at hsome
    split at hsome
    · next heq =>
      obtain ⟨rfl, rfl⟩ := Prod.mk.inj (Option.some.inj hsome)
      exact ⟨e.uses i.index, hdue, by rw [huses, if_pos heq.symm, heq]; rfl⟩
    · next hne =>
      rw [huses, if_neg (Ne.symm hne)]
      exact h.used n generation inUse hsome
  · rw [hbirths, huses, h.births_eq]
    by_cases hindex : i.index = j.index
    · rw [if_pos hindex, Nat.count_succ, ← hindex, ← hdue]
      have hij : i = j ↔ i.generation = j.generation := by
        refine ⟨congrArg _, fun hg => ?_⟩
        cases i
        cases j
        simp_all
      exact congrArg (_ + ·) (if_congr hij rfl rfl)
    · rw [if_neg hindex, if_neg fun hij => hindex (congrArg _ hij)]
      rfl

theorem Counted.death {e e' : Engine} (h : e.Counted) {i : InstanceId}
    (hl : e'.lives = .destroyed i :: e.lives)
    (hs : e.entryUse i.index = some (i.generation, true))
    (hu : ∀ n, e'.entryUse n
      = if n = i.index then some (i.generation + 1, false) else e.entryUse n) : e'.Counted := by
  have huses (n : Nat) : e'.uses n = e.uses n := uses_of_lives hl n
  have hbirths (j : InstanceId) : e'.births j = e.births j := births_of_lives hl j
  refine ⟨fun n hnone => ?_, fun n generation inUse hsome => ?_, fun j => ?_⟩
  · rw [hu] at hnone
    split at hnone
    · cases hnone
    · rw [huses]
      exact h.unused n hnone
  · rw [hu] at hsome
    rw [huses]
    split at hsome
    · next heq =>
      obtain ⟨rfl, rfl⟩ := Prod.mk.inj (Option.some.inj hsome)
      obtain ⟨k, hk, hc⟩ := h.used _ _ _ hs
      refine ⟨k + 1, ?_, heq ▸ hc⟩
      rw [hk, UInt32.ofNat_add]
      rfl
    · exact h.used n generation inUse hsome
  · rw [hbirths, huses]
    exact h.births_eq j

/-- **Every change keeps the count.** -/
theorem Counted.happening {e e' : Engine} (h : e.Counted) (hh : Happening e e') : e'.Counted := by
  cases hh with
  | nothing hl hu => exact h.congr (births_congr hl) (uses_congr hl) hu
  | @mark event hm hl hu =>
    have hb (i : InstanceId) : event.isBirth i = false := by cases event <;> first | rfl | cases hm
    have hn (n : Nat) : event.isUse n = false := by cases event <;> first | rfl | cases hm
    refine h.congr (fun i => ?_) (fun n => ?_) hu
    · rw [births_of_lives hl, hb]
      rfl
    · rw [uses_of_lives hl, hn]
      rfl
  | birth hl hn hu => exact h.birth hl hn hu
  | death hl hs hu => exact h.death hl hs hu
  | echo hl _ _ hu => exact h.congr (births_of_lives hl) (uses_of_lives hl) hu

theorem Changes.counted {closed : Prop} {e e' : Engine} (hc : Changes closed e e')
    (hi : Inv closed e) (h : e.Counted) : e'.Counted :=
  hc.preserves (fun _ _ hi hchange h => h.happening (hchange.happening hi)) hi h

/-- **A handle begins more than once only after a full turn** of the generations of its entry. -/
theorem Counted.births_le_one_iff {e : Engine} (h : e.Counted) (i : InstanceId) :
    e.births i ≤ 1 ↔ e.uses i.index ≤ i.generation.toNat + 2 ^ 32 := by
  have hturn (k : Nat) :
      UInt32.ofNat k = i.generation ↔ k ≡ i.generation.toNat [MOD 2 ^ 32] := by
    rw [← UInt32.toNat_inj, UInt32.toNat_ofNat']
    unfold Nat.ModEq
    rw [Nat.mod_eq_of_lt (a := i.generation.toNat) i.generation.toNat_lt]
  have hlt := i.generation.toNat_lt
  rw [h.births_eq]
  simp only [hturn]
  rw [Nat.count_modEq_card _ (by decide), Nat.mod_eq_of_lt hlt]
  split <;> omega

/-! ## 5. One handle -/

/-- **What one change means for one handle.** -/
inductive Turn (i : InstanceId) (e e' : Engine) : Prop
  | stays (hc : e'.forest.contains i = e.forest.contains i) (hb : e'.births i = e.births i)
      (hr : e'.reports i = e.reports i)
  | begins (hn : e.forest.contains i = false) (hc : e'.forest.contains i = true)
      (hb : e'.births i = e.births i + 1) (hr : e'.reports i = e.reports i)
  | ends (hc : e.forest.contains i = true) (hn : e'.forest.contains i = false)
      (hb : e'.births i = e.births i) (hr : e'.reports i = e.reports i + 1)
  /-- Its end is reported once more. -/
  | echoes (hn : e.forest.contains i = false) (hn' : e'.forest.contains i = false)
      (hb : e'.births i = e.births i) (hd : 0 < e.reports i) (hr : e'.reports i = e.reports i + 1)

theorem Happening.turn {e e' : Engine} (h : Happening e e') (i : InstanceId) : Turn i e e' := by
  have hsame (hu : ∀ n, e'.entryUse n = e.entryUse n) :
      e'.forest.contains i = e.forest.contains i := by
    rw [contains_eq_entryUse, contains_eq_entryUse, hu]
  have hother {j : InstanceId} (hij : ¬ j = i) (hindex : i.index = j.index) :
      j.generation ≠ i.generation := by
    rintro hg
    cases i
    cases j
    simp_all
  cases h with
  | nothing hl hu => exact .stays (hsame hu) (births_congr hl i) (reports_congr hl i)
  | @mark event hm hl hu =>
    refine .stays (hsame hu) ?_ ?_
    · rw [births_of_lives hl]
      cases event <;> first | rfl | cases hm
    · rw [reports_of_lives hl]
      cases event <;> first | rfl | cases hm
  | @birth j flow found hl hn hu =>
    have hb : e'.births i = e.births i + if j = i then 1 else 0 := by
      rw [births_of_lives hl]
      exact congrArg (_ + ·) (if_congr beq_iff_eq rfl rfl)
    have hfree (heq : i.index = j.index) : e.forest.contains i = false := by
      rw [contains_eq_entryUse, heq]
      rcases hn with ⟨hn, _⟩ | hn <;> simp [hn]
    by_cases hij : j = i
    · subst hij
      refine .begins (hfree rfl) ?_ (by rw [hb, if_pos rfl]) (reports_of_lives hl j)
      rw [contains_iff_entryUse, hu, if_pos rfl]
    · refine .stays ?_ (by rw [hb, if_neg hij]; rfl) (reports_of_lives hl i)
      by_cases hindex : i.index = j.index
      · rw [hfree hindex, contains_eq_entryUse, hu, if_pos hindex]
        simp [hother hij hindex]
      · rw [contains_eq_entryUse, contains_eq_entryUse, hu, if_neg hindex]
  | @death j hl hs hu =>
    have hr : e'.reports i = e.reports i + if j = i then 1 else 0 := by
      rw [reports_of_lives hl]
      exact congrArg (_ + ·) (if_congr beq_iff_eq rfl rfl)
    by_cases hij : j = i
    · subst hij
      refine .ends ((contains_iff_entryUse e j).mpr hs) ?_ (births_of_lives hl j)
        (by rw [hr, if_pos rfl])
      rw [contains_eq_entryUse, hu, if_pos rfl]
      simp
    · refine .stays ?_ (births_of_lives hl i) (by rw [hr, if_neg hij]; rfl)
      by_cases hindex : i.index = j.index
      · rw [contains_eq_entryUse, contains_eq_entryUse, hu, if_pos hindex, hindex, hs]
        simp [hother hij hindex]
      · rw [contains_eq_entryUse, contains_eq_entryUse, hu, if_neg hindex]
  | @echo j hl hn hd hu =>
    have hr : e'.reports i = e.reports i + if j = i then 1 else 0 := by
      rw [reports_of_lives hl]
      exact congrArg (_ + ·) (if_congr beq_iff_eq rfl rfl)
    by_cases hij : j = i
    · subst hij
      exact .echoes hn ((hsame hu).trans hn) (births_of_lives hl j) hd (by rw [hr, if_pos rfl])
    · exact .stays (hsame hu) (births_of_lives hl i) (by rw [hr, if_neg hij]; rfl)

theorem Change.turn {closed : Prop} {e e' : Engine} (h : Change closed e e') (hi : Inv closed e)
    (i : InstanceId) : Turn i e e' := (h.happening hi).turn i

/-- **What is recorded of a handle**: nothing before it begins, and after it began once either it is
    live or its end was reported, not both. -/
structure Recorded (e : Engine) (i : InstanceId) : Prop where
  unborn : e.births i = 0 → e.forest.contains i = false ∧ e.reports i = 0
  live : e.births i = 1 → e.forest.contains i = true → e.reports i = 0
  gone : e.births i ≠ 0 → e.forest.contains i = false → 0 < e.reports i

theorem Recorded.turn {e e' : Engine} {i : InstanceId} (h : Recorded e i) (ht : Turn i e e') :
    Recorded e' i := by
  obtain ⟨hunborn, hlive, hgone⟩ := h
  cases ht with
  | stays hc hb hr =>
    rw [← hb, ← hc, ← hr] at hunborn
    rw [← hb, ← hc, ← hr] at hlive
    rw [← hb, ← hc, ← hr] at hgone
    exact ⟨hunborn, hlive, hgone⟩
  | begins hn hc hb hr =>
    refine ⟨fun h0 => by omega, fun h1 _ => ?_, fun _ h => ?_⟩
    · rw [hr]
      exact (hunborn (by omega)).2
    · rw [hc] at h
      cases h
  | ends hc hn hb hr =>
    refine ⟨fun h0 => ?_, fun _ h => ?_, fun _ _ => by omega⟩
    · rw [(hunborn (hb ▸ h0)).1] at hc
      cases hc
    · rw [hn] at h
      cases h
  | echoes hn hn' hb hd hr =>
    refine ⟨fun h0 => ?_, fun _ h => ?_, fun _ _ => by omega⟩
    · have := (hunborn (hb ▸ h0)).2
      omega
    · rw [hn'] at h
      cases h

theorem Changes.recorded {closed : Prop} {e e' : Engine} (hc : Changes closed e e')
    (hi : Inv closed e) {i : InstanceId} (h : Recorded e i) : Recorded e' i :=
  hc.preserves (P := fun e => Recorded e i)
    (fun _ _ hi hchange h => h.turn (hchange.turn hi i)) hi h

/-! ## 6. How often a handle was seen off -/

/-- Reported ends, and one to come if the instance is live. -/
def tally (e : Engine) (i : InstanceId) : Nat :=
  e.reports i + if e.forest.contains i then 1 else 0

theorem tally_of_live {e : Engine} {i : InstanceId} (h : e.forest.contains i = true) :
    e.tally i = e.reports i + 1 := by
  unfold tally
  rw [h]
  rfl

theorem tally_of_gone {e : Engine} {i : InstanceId} (h : e.forest.contains i = false) :
    e.tally i = e.reports i := by
  unfold tally
  rw [h]
  rfl

/-- The tally never falls. -/
theorem Turn.tally_le {e e' : Engine} {i : InstanceId} (h : Turn i e e') :
    e.tally i ≤ e'.tally i := by
  cases h with
  | stays hc _ hr =>
    unfold tally
    rw [hc, hr]
  | begins hn hc _ hr =>
    rw [tally_of_live hc, tally_of_gone hn]
    omega
  | ends hc hn _ hr => rw [tally_of_live hc, tally_of_gone hn, hr]
  | echoes hn hn' _ _ hr =>
    rw [tally_of_gone hn, tally_of_gone hn']
    omega

theorem Changes.tally_le {closed : Prop} {e e' : Engine} (hc : Changes closed e e')
    (hi : Inv closed e) (i : InstanceId) : e.tally i ≤ e'.tally i :=
  hc.preserves (P := fun e' => e.tally i ≤ e'.tally i)
    (fun _ _ hi hchange h => h.trans (hchange.turn hi i).tally_le) hi (Nat.le_refl _)

end Engine

end InstrumentFlow
