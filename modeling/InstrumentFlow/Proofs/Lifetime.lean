import InstrumentFlow.Proofs.Engine.Run
import InstrumentFlow.Proofs.Lifetime.Echo

/-!
# The reports on the lives of instances

* `Preceded` -- every event of one kind comes after one of another;
* `Changes.preceded` -- the end of an instance is reported after those of its descendants;
* `lifetime_after` -- what is reported of an instance in every run.
-/

namespace InstrumentFlow

/-- In a journal, the latest first, every event `x` comes after an event `y`. -/
def Preceded (x y : Event) (l : List Event) : Prop := ∀ a b, l = a ++ x :: b → y ∈ b

theorem Preceded.nil (x y : Event) : Preceded x y [] := by
  intro a b h
  cases a <;> cases h

theorem Preceded.cons {x y event : Event} {l : List Event} (h : Preceded x y l)
    (he : event = x → y ∈ l) : Preceded x y (event :: l) := by
  intro a b hl
  cases a with
  | nil =>
    obtain ⟨hx, rfl⟩ := List.cons.inj hl
    exact he hx
  | cons z a =>
    obtain ⟨_, hl⟩ := List.cons.inj hl
    exact h a b hl

namespace Engine

open Relation (TransGen)

/-! ## 1. Descendants go first -/

theorem isCaller_markAsync (e : Engine) (i : InstanceId) (component : Nat) (waits : Bool)
    (p k : InstanceId) :
    (e.markAsync i component waits).forest.IsCaller p k ↔ e.forest.IsCaller p k := by
  show (∃ s, (e.markAsync i component waits).instance? k = some s ∧ _)
    ↔ ∃ s, e.instance? k = some s ∧ _
  rw [instance?_markAsync]
  split
  · next hk =>
    subst hk
    cases e.instance? k with
    | none => simp
    | some s => simp [Instance.caller?, Instance.parent_mark]
  · rfl

/-- Who has descendants is live. -/
theorem live_of_transGen {f : Forest} (hf : f.Sound) {i k : InstanceId}
    (hk : TransGen f.IsCaller i k) : ∃ s, f.get? i = some s := by
  induction hk with
  | single h => exact hf.caller_live _ _ h
  | tail _ _ ih => exact ih

/-- An instance without children is no link on the way to a descendant. -/
theorem transGen_buried {e : Engine} {j : InstanceId} {s : Instance} {forest : Forest}
    (hf : e.forest.Sound) (hr : e.forest.remove j = some (s, forest)) (hs : s.children = [])
    {i k : InstanceId} (hk : TransGen e.forest.IsCaller i k) (hkj : k ≠ j) :
    TransGen forest.IsCaller i k := by
  have hleaf (q : InstanceId) : ¬ e.forest.IsCaller j q := by
    intro hq
    have hmem := (hf.mem_children j s (Forest.remove_eq_some_iff.mp hr).1 q).mpr hq
    rw [hs] at hmem
    cases hmem
  induction hk with
  | single h => exact .single ((Forest.isCaller_remove hr _ _).mpr ⟨h, hkj⟩)
  | @tail q k _ h ih =>
    have hqj : q ≠ j := by
      rintro rfl
      exact hleaf k h
    exact .tail (ih hqj) ((Forest.isCaller_remove hr _ _).mpr ⟨h, hkj⟩)

/-- **A descendant stays a descendant until its end is reported**, and until then the end of the
    instance above it is not. -/
theorem Change.below {closed : Prop} {e e' : Engine} (h : Change closed e e') (hi : Inv closed e)
    {i k : InstanceId} (hk : TransGen e.forest.IsCaller i k) :
    TransGen e'.forest.IsCaller i k ∧ e'.reports i = e.reports i
      ∨ e'.lives = .destroyed k :: e.lives := by
  obtain ⟨si, hsi⟩ := live_of_transGen hi.sound hk
  cases h with
  | touch h =>
    exact Or.inl ⟨TransGen.mono (fun p q => (h.calm.isCaller_iff p q).mpr) i k hk,
      reports_congr h.calm.lives i⟩
  | @await child j c _ =>
    exact Or.inl ⟨TransGen.mono (fun p q => (isCaller_markAsync _ j c true p q).mpr) i k hk,
      reports_of_lives (lives_startAsync e child j c) i⟩
  | release child j c =>
    exact Or.inl ⟨TransGen.mono (fun p q => (isCaller_markAsync _ j c false p q).mpr) i k hk,
      reports_clearAsync e child j c i⟩
  | @begin flow f parent isAction hf hp ha =>
    have hrooted := rooted_freshInstance flow f hp ha e.heap
    exact Or.inl ⟨TransGen.mono (fun p q hc =>
        (Forest.isCaller_insert hi.sound.free hrooted p q).mpr (Or.inl hc)) i k hk,
      reports_of_lives (lives_record rfl) i⟩
  | @bury j s forest hr hs =>
    by_cases hkj : k = j
    · exact Or.inr (hkj ▸ lives_record rfl)
    · refine Or.inl ⟨transGen_buried hi.sound hr hs hk hkj, ?_⟩
      have hij : i ≠ j := by
        rintro rfl
        have hk' := transGen_buried hi.sound hr hs hk hkj
        obtain ⟨t, ht⟩ := live_of_transGen (hi.sound.remove hr hs) hk'
        rw [Forest.get?_remove_self hr] at ht
        cases ht
      rw [reports_of_lives (lives_buried e j forest), Event.isReport, beq_false_of_ne hij.symm]
      rfl
  | @echo j hn _ =>
    have hij : i ≠ j := by
      rintro rfl
      rw [show e.instance? i = some si from hsi] at hn
      cases hn
    exact Or.inl ⟨hk, reports_echoed_of_ne e hij⟩

theorem Change.lives_cases {closed : Prop} {e e' : Engine} (h : Change closed e e')
    (hi : Inv closed e) : e'.lives = e.lives ∨ ∃ event, e'.lives = event :: e.lives := by
  cases h.happening hi with
  | nothing hl _ => exact Or.inl hl
  | mark _ hl _ => exact Or.inr ⟨_, hl⟩
  | birth hl _ _ => exact Or.inr ⟨_, hl⟩
  | death hl _ _ => exact Or.inr ⟨_, hl⟩
  | echo hl _ _ _ => exact Or.inr ⟨_, hl⟩

/-- **The end of an instance is reported after the ends of its descendants.** -/
theorem Changes.preceded {closed : Prop} {e e' : Engine} (hc : Changes closed e e')
    (hi : Inv closed e) {i k : InstanceId} (hk : TransGen e.forest.IsCaller i k) :
    ∃ new, e'.lives = new ++ e.lives ∧ Preceded (.destroyed i) (.destroyed k) new
      ∧ (.destroyed k ∈ new ∨ TransGen e'.forest.IsCaller i k) := by
  refine hc.preserves (P := fun e' => ∃ new, e'.lives = new ++ e.lives
    ∧ Preceded (.destroyed i) (.destroyed k) new
    ∧ (.destroyed k ∈ new ∨ TransGen e'.forest.IsCaller i k)) ?_ hi
    ⟨[], rfl, Preceded.nil _ _, Or.inr hk⟩
  rintro e₁ e₂ hi₁ hchange ⟨new, hl, hnew, hcase⟩
  rcases hcase with hgone | hbelow
  · rcases hchange.lives_cases hi₁ with hl₂ | ⟨event, hl₂⟩
    · exact ⟨new, hl₂.trans hl, hnew, Or.inl hgone⟩
    · exact ⟨event :: new, by rw [hl₂, hl]; rfl, hnew.cons fun _ => hgone,
        Or.inl (List.mem_cons_of_mem event hgone)⟩
  · rcases hchange.below hi₁ hbelow with ⟨hbelow₂, hr⟩ | hl₂
    · rcases hchange.lives_cases hi₁ with hl₂ | ⟨event, hl₂⟩
      · exact ⟨new, hl₂.trans hl, hnew, Or.inr hbelow₂⟩
      · refine ⟨event :: new, by rw [hl₂, hl]; rfl, hnew.cons ?_, Or.inr hbelow₂⟩
        rintro rfl
        rw [reports_of_lives hl₂, Event.isReport, beq_self_eq_true, if_pos rfl] at hr
        omega
    · refine ⟨.destroyed k :: new, by rw [hl₂, hl]; rfl, hnew.cons fun he => ?_,
        Or.inl List.mem_cons_self⟩
      exact absurd (Event.destroyed.inj he).symm (ne_of_transGen hi₁.sound hbelow)

/-- The same, read off the journal. -/
theorem Changes.preceded_journal {closed : Prop} {e e' : Engine} (hc : Changes closed e e')
    (hi : Inv closed e) {i k : InstanceId} (hk : TransGen e.forest.IsCaller i k)
    {a b : List Event} (hj : e'.journal = a ++ .destroyed i :: (b ++ e.journal)) :
    .destroyed k ∈ b := by
  obtain ⟨new, hl, hnew, _⟩ := hc.preceded hi hk
  have hfilter : e'.lives
      = a.filter Event.isLife ++ .destroyed i :: b.filter Event.isLife ++ e.lives := by
    unfold lives
    rw [hj, List.filter_append, List.filter_cons_of_pos rfl, List.filter_append]
    simp
  have hsplit := List.append_cancel_right (hl.symm.trans hfilter)
  exact (List.mem_filter.mp (hnew _ _ hsplit)).1

/-! ## 2. Every run -/

theorem counted_built (d : Definition) (config : Config) (dispatcher : Dispatcher) (host : Host) :
    (built d config dispatcher host).Counted where
  unused _ _ := rfl
  used n generation inUse h := by
    simp [built, entryUse] at h
  births_eq i := (Nat.count_zero _).symm

theorem recorded_built (d : Definition) (config : Config) (dispatcher : Dispatcher) (host : Host)
    (i : InstanceId) : (built d config dispatcher host).Recorded i where
  unborn _ := ⟨by simp [built, Forest.contains, Forest.get?], rfl⟩
  live _ _ := rfl
  gone h _ := absurd rfl h

/-- Reports stay. -/
theorem Changes.reports_le {closed : Prop} {e e' : Engine} (hc : Changes closed e e')
    (i : InstanceId) : e.reports i ≤ e'.reports i := hc.journal.sublist.countP_le

/-- **A course on which a destruction of the instance resounds** is one that reports it more than
    once. -/
theorem Course.resounded_iff {closed : Prop} {e e' : Engine} (hc : Course closed e e')
    (hi : Inv closed e) {i : InstanceId} (ht : e.tally i = e.births i) (hb : e'.births i ≤ 1) :
    Resounded closed e e' i ↔ 1 < e'.reports i := by
  constructor
  · rintro ⟨e₁, e₂, h₁, hres, hd, h₂⟩
    have htwo := hd.reports_of_resounds (Changes.inv h₁ hi) hres
    have hle := Changes.reports_le h₂ i
    omega
  · intro htwo
    rcases hc.tally hi ht with ht' | hres
    · have hle : e'.reports i ≤ e'.tally i := Nat.le_add_right _ _
      omega
    · exact hres

/-- **What is reported of an instance in every run.** Its handle begins at most once as long as the
    generations of its entry last. Then it is live until its end is reported; its end is reported
    more than once if and only if a destruction of it resounds; and at any time its end is reported
    only after the ends of all its descendants. -/
theorem lifetime_after {d : Definition} {config : Config} {dispatcher : Dispatcher} {host : Host}
    {e₀ : Engine} (hb : build d config dispatcher host = .ok e₀) (moves : List Move)
    (i : InstanceId) :
    ((e₀.after moves).births i ≤ 1
      ↔ (e₀.after moves).uses i.index ≤ i.generation.toNat + 2 ^ 32)
    ∧ ((e₀.after moves).births i = 0 →
        (e₀.after moves).forest.contains i = false ∧ (e₀.after moves).reports i = 0)
    ∧ ((e₀.after moves).births i = 1 →
        ((e₀.after moves).forest.contains i = true ↔ (e₀.after moves).reports i = 0)
        ∧ ((e₀.after moves).reports i ≤ 1 ↔ ¬ Resounded False e₀ (e₀.after moves) i))
    ∧ ∀ e k, Changes False e₀ e → Changes False e (e₀.after moves) →
        TransGen e.forest.IsCaller i k → ∀ a b,
          (e₀.after moves).journal = a ++ .destroyed i :: (b ++ e.journal) → .destroyed k ∈ b := by
  have h₀ : Inv False e₀ := inv_build hb False.elim
  have hcourse := course_after h₀ moves False.elim
  have hchanges := hcourse.changes h₀
  obtain ⟨_, rfl⟩ := build_eq_ok_iff.mp hb
  have hcounted := hchanges.counted h₀ (counted_built d config dispatcher host)
  have hrecorded := hchanges.recorded h₀ (recorded_built d config dispatcher host i)
  refine ⟨hcounted.births_le_one_iff i, hrecorded.unborn, fun hone => ⟨?_, ?_⟩, ?_⟩
  · refine ⟨hrecorded.live hone, fun hr => ?_⟩
    refine Classical.byContradiction fun hgone => ?_
    have hpos := hrecorded.gone (by omega) (Bool.eq_false_iff.mpr hgone)
    omega
  · have htally : (built d config dispatcher host).tally i
        = (built d config dispatcher host).births i :=
      tally_of_gone ((recorded_built d config dispatcher host i).unborn rfl).1
    rw [hcourse.resounded_iff h₀ htally (by omega)]
    omega
  · intro e k h₁ h₂ hk a b hj
    exact h₂.preceded_journal (h₁.inv h₀) hk hj

/-- Three flows; each calls the next one, and the last one only begins. -/
def nestedDefinition : Definition :=
  { flows :=
      [{ name := "main", components := [{ kind := .callAction, payload := [1, 0] }] },
       { name := "middle", components := [{ kind := .callAction, payload := [2, 0] }] },
       { name := "inner", components := [{ kind := .start }] }] }

/-- The three flows are started, run until the last one waits to begin, and are shut down. -/
def nestedMoves : List Move :=
  [.order ⟨.startFlow 0, none⟩, .tick none, .tick none, .order ⟨.shutdown, none⟩]

/-- The middle one of three nested instances begins once, and its end is reported twice because the
    destruction of it resounds. -/
theorem lifetime_after_nested :
    build nestedDefinition {} .absent {} = .ok (built nestedDefinition {} .absent {})
    ∧ ((built nestedDefinition {} .absent {}).after nestedMoves).births ⟨1, 0⟩ = 1
    ∧ Resounded False (built nestedDefinition {} .absent {})
        ((built nestedDefinition {} .absent {}).after nestedMoves) ⟨1, 0⟩ := by
  have hb : build nestedDefinition {} .absent {} = .ok (built nestedDefinition {} .absent {}) := rfl
  have hbirths : ((built nestedDefinition {} .absent {}).after nestedMoves).births ⟨1, 0⟩ = 1 := by
    decide +kernel
  have hreports : ((built nestedDefinition {} .absent {}).after nestedMoves).reports ⟨1, 0⟩
      = 2 := by decide +kernel
  refine ⟨hb, hbirths, Classical.byContradiction fun h => ?_⟩
  have hone := (((lifetime_after hb nestedMoves ⟨1, 0⟩).2.2.1 hbirths).2).mpr h
  omega

/-- Not every run reports the end of every instance at most once. -/
theorem not_reports_le_one :
    ¬ ∀ (d : Definition) (e₀ : Engine) (moves : List Move) (i : InstanceId),
      build d {} .absent {} = .ok e₀ → (e₀.after moves).reports i ≤ 1 := by
  intro h
  have hone := h nestedDefinition (built nestedDefinition {} .absent {}) nestedMoves ⟨1, 0⟩ rfl
  have htwo : ((built nestedDefinition {} .absent {}).after nestedMoves).reports ⟨1, 0⟩ = 2 := by
    decide +kernel
  omega

end Engine

end InstrumentFlow
