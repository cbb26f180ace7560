import InstrumentFlow.Proofs.Engine.Rounds
import InstrumentFlow.Proofs.Lasting
import InstrumentFlow.Proofs.Notices.Steps

/-!
# Whether observers learn of progress

Observers are told when a component gets progress or loses it, in every task of every run, whether
the step of the task is completed, suspended or fails. One loss they never learn of: when a loop that
is under way cannot read, add or assign, its progress is gone, and the error finds nothing to end.

* `Hushed` -- a component without progress gets none, and nothing is told of it;
* `Hushed.releaseProgress`, `Hushed.bury` -- so it is where progress or an instance is ended;
* `LoopFails`, `Misplaced` -- the loss that is not told; progress that only the host can have given;
* `hushed_runTask` -- a loop whose turn fails loses its progress, and nothing is told;
* `progress_told` -- **what observers learn of progress**, in every task of every run.
-/

namespace InstrumentFlow.Engine

/-! ## 1. Components of which nothing is told -/

/-- Whether an event tells of the progress of a component. -/
def tellsProgress (i : InstanceId) (c : Nat) : Event → Bool
  | .progressChanged j k => decide (i = j ∧ c = k)
  | _ => false

/-- **A component without progress gets none**, and nothing is told of it. -/
def Hushed (i : InstanceId) (c : Nat) (e e' : Engine) : Prop :=
  e.progress? i c = none → e'.progress? i c = none ∧ Adds (tellsProgress i c) e e'

variable {i : InstanceId} {c : Nat} {e e' e'' : Engine}

namespace Hushed

theorem same (hp : e'.progress? i c = e.progress? i c) (ha : Adds (tellsProgress i c) e e') :
    Hushed i c e e' := fun hn => ⟨hp.trans hn, ha⟩

theorem refl (e : Engine) : Hushed i c e e := same rfl (.refl e)

theorem trans (h : Hushed i c e e') (h' : Hushed i c e' e'') : Hushed i c e e'' := fun hn =>
  have h₁ := h hn
  have h₂ := h' h₁.1
  ⟨h₂.1, h₁.2.trans h₂.2⟩

theorem record (e : Engine) {event : Event} (h : tellsProgress i c event = false) :
    Hushed i c e (e.record event) := same rfl (.record e h)

/-- **Activities that change the progress of others alone** tell nothing of the component. -/
theorem tolerant : Tolerant (others i c) (Hushed i c) where
  refl := refl
  trans := trans
  beside hf _ hj := by
    refine same ?_ (.silent hj)
    unfold progress? instance?
    rw [hf]
  record e event h := by
    refine record e ?_
    cases event with
    | progressChanged _ _ => cases h
    | _ => rfl
  modifyInstance e j _ _ hp := same (progress?_modifyInstance e j _ hp i c) (.silent rfl)
  setProgress e j k ho p := by
    refine same ?_ (.silent rfl)
    rw [progress?_setProgress, if_neg (others_ne ho)]
  noteProgress e j k ho := record e (decide_eq_false (others_ne ho))

/-- Where there is no progress there is nothing to end. -/
theorem releaseProgress (e : Engine) (j : InstanceId) (k : Nat) :
    Hushed i c e (e.releaseProgress j k) := by
  cases ho : others i c j k with
  | true => exact tolerant.releaseProgress e ho
  | false =>
    obtain ⟨rfl, rfl⟩ : i = j ∧ c = k := of_decide_eq_true ((Bool.not_eq_false' _).mp ho)
    intro hn
    unfold Engine.releaseProgress
    rw [hn]
    exact refl e hn

/-- **The end of an instance.** -/
theorem bury (j : InstanceId) (e : Engine) : Hushed i c e (Engine.bury j e).2 := by
  have hstripped : Hushed i c e (e.stripped j) := by
    unfold stripped
    generalize ((e.instance? j).map Instance.openComponents).getD [] = cs
    induction cs generalizing e with
    | nil => exact refl e
    | cons k cs ih => exact (releaseProgress e j k).trans (ih _)
  cases hj : e.instance? j with
  | none =>
    rw [bury_of_none hj]
    exact (record e rfl).trans (tolerant.beside rfl rfl rfl)
  | some s =>
    obtain ⟨s₁, forest, hr, _, he⟩ := bury_of_some hj
    rw [he]
    refine hstripped.trans fun hn => ⟨?_, [.destroyed j], rfl, by simp [tellsProgress]⟩
    refine Option.eq_none_iff_forall_ne_some.mpr fun p hp => ?_
    obtain ⟨t', ht', hp'⟩ := Option.bind_eq_some_iff.mp hp
    obtain ⟨_, t, _, ht, rfl⟩ := Forest.get?_remove_children hr ht'
    refine absurd hn (Option.ne_none_iff_exists'.mpr ⟨p, ?_⟩)
    exact Option.bind_eq_some_iff.mpr ⟨t, ht, hp'⟩

end Hushed

/-! ## 2. A loop whose turn fails -/

/-- **The task of a loop whose turn fails**: the loop is under way, and its instance has not
    failed. -/
def LoopFails (e : Engine) (t : Task) : Prop :=
  ∃ s record l err e', e.instance? t.instanceId = some s ∧ s.failed = false
    ∧ e.componentOf? t.instanceId t.component = some record ∧ record.kind = .loop
    ∧ e.progress? t.instanceId t.component = some (.loop l)
    ∧ loopTurn t.instanceId t.component l
      ((e.beginStep t).setProgress t.instanceId t.component none) = .error err e'

/-- A component has progress of another kind of component. -/
def Misplaced (e : Engine) (i : InstanceId) (c : Nat) : Prop :=
  ∃ p, e.progress? i c = some p ∧ ¬ e.Suits i c p

/-- What follows from a failed step of a loop that has no progress any more. -/
theorem hushed_settleOutcome (hk : e.kindOf? i c = some .loop) (err : FlowError) :
    Hushed i c e ((settleOutcome i c (.error err e)).tidy i c) := by
  have hend : Hushed i c e (e.endStep i c false) := .same rfl (.record e rfl)
  have hrelease := Hushed.releaseProgress (i := i) (c := c) (e.endStep i c false) i c
  have hkind : ((e.endStep i c false).releaseProgress i c).kindOf? i c = some .loop := by
    have hstrokes : Strokes False anybody (e.endStep i c false)
        ((e.endStep i c false).releaseProgress i c) := strokes_releaseProgress .refl trivial
    exact (kindOf?_calm hstrokes.calm i c).trans hk
  -- whoever catches the error is no loop
  have hcatches (catcher : InstanceId) (k : Nat)
      (hcatch : ((e.endStep i c false).releaseProgress i c).kindOf? catcher k = some .catchError) :
      others i c catcher k = true := by
    refine (Bool.not_eq_true' _).mpr (decide_eq_false ?_)
    rintro ⟨rfl, rfl⟩
    rw [hkind] at hcatch
    cases hcatch
  have hraise := Hushed.tolerant.raiseError _ hcatches i c err.message
  exact ((hend.trans hrelease).trans hraise).trans (Hushed.tolerant.tidy Hushed.bury _ i c)

/-- **A loop whose turn fails loses its progress**, and nothing is told of that. -/
theorem hushed_runTask (handler : Handler) (hi : Inv False e) {t : Task} (h : e.LoopFails t) :
    e.hasProgress t.instanceId t.component = true
    ∧ (e.runTask handler t).hasProgress t.instanceId t.component = false
    ∧ Adds (tellsProgress t.instanceId t.component) e (e.runTask handler t) := by
  obtain ⟨s, record, l, err, e₁, hs, hf, hc, hk, hp, hturn⟩ := h
  have hib := (touches_beginStep hi t).inv hi
  have hstep : execute handler t.instanceId t.component record (e.beginStep t) = .error err e₁ := by
    unfold execute
    rw [hk]
    show stepLoop t.instanceId t.component (e.beginStep t) = .error err e₁
    have hout : checkOut t.instanceId t.component (e.beginStep t)
        = .ok (some (.loop l)) ((e.beginStep t).setProgress t.instanceId t.component none) := by
      rw [← hp]
      rfl
    unfold stepLoop
    rw [bind_of_ok hout]
    dsimp only
    rw [advanceLoop_eq]
    exact bind_of_error hturn
  have hv := vacant_taken (i := t.instanceId) (c := t.component) hib
  have hkind : e₁.kindOf? t.instanceId t.component = some .loop := by
    have hstrokes : Strokes False untouched
        ((e.beginStep t).setProgress t.instanceId t.component none) e₁ :=
      (upholds_loopTurn (hv.strokes.inv hib) l).of_error hturn
    rw [kindOf?_calm hstrokes.calm, kindOf?_calm hv.strokes.calm]
    exact (congrArg (Option.map Component.kind) hc).trans (congrArg some hk)
  have hmain : Hushed t.instanceId t.component
      ((e.beginStep t).setProgress t.instanceId t.component none) (e.runTask handler t) := by
    have hturned : Hushed t.instanceId t.component
        ((e.beginStep t).setProgress t.instanceId t.component none) e₁ :=
      (Hushed.tolerant.maintains_loopTurn _ _ l _).of_error hturn
    rw [runTask_of_live handler hs hf hc, hstep]
    exact hturned.trans (hushed_settleOutcome hkind err)
  obtain ⟨hnone, hnews⟩ := hmain hv.empty
  have hbegun : Adds (tellsProgress t.instanceId t.component) e
      ((e.beginStep t).setProgress t.instanceId t.component none) :=
    (Adds.record e rfl).trans (.silent rfl)
  exact ⟨congrArg Option.isSome hp, hasProgress_of_none hnone, hbegun.trans hnews⟩

/-! ## 3. Every run -/

theorem not_tells_of_adds {news : List Event} (ha : Adds (tellsProgress i c) e e')
    (hj : e'.journal = news ++ e.journal) : .progressChanged i c ∉ news := by
  obtain ⟨news', hj', hn⟩ := ha
  rw [← List.append_cancel_right (hj.symm.trans hj')] at hn
  intro hmem
  have htells : decide (i = i ∧ c = c) = false := hn _ hmem
  simp at htells

/-- **What becomes of progress in a task is told**, unless it is the failing turn of a loop or the
    progress is misplaced. -/
theorem announces_task (handler : Handler) (hi : Inv False e) (hh : e.definition.Hostless)
    {t : Task} (hregular : (i, c) = (t.instanceId, t.component) →
      ¬ e.LoopFails t ∧ ¬ e.Misplaced i c) : Announces i c e (e.runTask handler t) := by
  refine announces_runTask handler hi hh t fun s record hs hf hc => ?_
  have hib := (touches_beginStep hi t).inv hi
  have hbuilt := only_componentOf? hh hc
  by_cases hpair : i = t.instanceId ∧ c = t.component
  · obtain ⟨rfl, rfl⟩ := hpair
    obtain ⟨hloop, hplaced⟩ := hregular rfl
    refine announces_execute handler hib hc hbuilt (fun p hp => ?_) fun l hk hp => ?_
    · exact Classical.byContradiction fun hs => hplaced ⟨p, hp, hs⟩
    · cases hturn : loopTurn t.instanceId t.component l
        ((e.beginStep t).setProgress t.instanceId t.component none) with
      | ok isOver e' => exact ⟨isOver, e', rfl⟩
      | error err e' => exact absurd ⟨s, record, l, err, e', hs, hf, hc, hk, hp, hturn⟩ hloop
  · exact announces_elsewhere handler hib hc hbuilt rfl hpair

section

variable {d : Definition} {config : Config} {dispatcher : Dispatcher} {host : Host} {e₀ : Engine}
  (hb : build d config dispatcher host = .ok e₀) (hh : d.Hostless) (moves : List Move)
  (count : Nat) (allowance : Option Nat) (report : TickReport) (t : Task)
include hb

/-- The turn of a task comes after leaps. -/
theorem leaps_turnOf : Leaps False False False e₀
    ((runTasks handler count allowance report (e₀.after moves)).2.debuggerBlocks t).2 := by
  have h₀ : Inv False e₀ := inv_build hb False.elim
  have hmoves : Leaps False False False e₀ (e₀.after moves) :=
    leaps_after h₀ False.elim id moves False.elim False.elim
  exact leaps_debuggerBlocks h₀
    (leaps_runTasks (handlerLeaps_handler False) h₀ False.elim id hmoves count allowance report) t

theorem inv_turnOf : Inv False
    (((runTasks handler count allowance report (e₀.after moves)).2.debuggerBlocks t).2.takeTask
      t) :=
  (touches_takeTask t).inv
    ((leaps_turnOf hb moves count allowance report t).inv (inv_build hb False.elim))

include hh

/-- Where the host keeps no progress, all of it belongs where it is. -/
theorem not_misplaced (hk : ∀ m ∈ moves, m.KeepsNothing) (i : InstanceId) (c : Nat) :
    ¬ (((runTasks handler count allowance report (e₀.after moves)).2.debuggerBlocks t).2.takeTask
      t).Misplaced i c := by
  have hsteady := steady_between hb hh moves hk count allowance report
  rw [debuggerBlocks_snd]
  rintro ⟨p, hp, hs⟩
  exact hs (hsteady.rest.orderly.suits i c p hp)

/-- **Observers learn what becomes of progress.** In every run of flows without components of the
    host, in every task: whenever a component gets progress or loses it, wherever it is, that is
    told, however the step ends. One loss is never told: that of a loop under way whose turn fails.
    And progress that does not belong to the kind of its component may be lost, but only the host
    can have given that. -/
theorem progress_told {e : Engine}
    (he : e = ((runTasks handler count allowance report (e₀.after moves)).2.debuggerBlocks
      t).2.takeTask t) :
    (∃ news, (e.runTask handler t).journal = news ++ e.journal
      ∧ (∀ i c, (e.runTask handler t).hasProgress i c ≠ e.hasProgress i c →
        .progressChanged i c ∈ news
          ∨ (i, c) = (t.instanceId, t.component) ∧ (e.LoopFails t ∨ e.Misplaced i c))
      ∧ (e.LoopFails t → e.hasProgress t.instanceId t.component = true
        ∧ (e.runTask handler t).hasProgress t.instanceId t.component = false
        ∧ .progressChanged t.instanceId t.component ∉ news))
    ∧ ((∀ m ∈ moves, m.KeepsNothing) → ∀ i c, ¬ e.Misplaced i c) := by
  have hi : Inv False e := he ▸ inv_turnOf hb moves count allowance report t
  have hhostless : e.definition.Hostless := by
    rw [he]
    show Definition.Hostless (Engine.debuggerBlocks _ t).2.definition
    rw [(leaps_turnOf hb moves count allowance report t).definition (inv_build hb False.elim),
      (build_eq_ok_iff.mp hb).2]
    exact hh
  refine ⟨?_, fun hk i c => he ▸ not_misplaced hb hh moves count allowance report t hk i c⟩
  obtain ⟨news, hj⟩ := (course_runTask hi hhostless handler t).changes hi |>.journal
  refine ⟨news, hj.symm, fun i c hne => ?_, fun hl => ?_⟩
  · by_cases hregular : (i, c) = (t.instanceId, t.component) ∧ (e.LoopFails t ∨ e.Misplaced i c)
    · exact Or.inr hregular
    · refine Or.inl ((announces_task handler hi hhostless fun hpair => ?_).mem hj.symm hne)
      exact not_or.mp fun hbad => hregular ⟨hpair, hbad⟩
  · obtain ⟨hbefore, hafter, hnews⟩ := hushed_runTask handler hi hl
    exact ⟨hbefore, hafter, not_tells_of_adds hnews hj.symm⟩

end

/-- A flow that starts a loop, whose step is no number and which starts its own next turn, and which
    catches errors. -/
def strandedDefinition : Definition :=
  { constants := [.undefined, .null, .int 0, .int 3]
    flows :=
      [{ name := "main", inputFlags := [1], locals := [.int 0]
         components :=
          [{ kind := .start, outputs := [{ isSequence := true, connections := [⟨1, 0, true⟩] }] },
           { kind := .loop, inputs := [0]
             properties :=
              [{ instructions := [0, 64, 0, 224] }, { instructions := [2, 0, 0, 224] },
               { instructions := [3, 0, 0, 224] }, { instructions := [1, 0, 0, 224] }]
             outputs := [{ isSequence := true, connections := [⟨1, 0, true⟩] }, {}] },
           { kind := .catchError, outputs := [{ isSequence := true }, {}] }] }] }

/-- The flow is started, and so many ticks follow. -/
def strandedMoves (ticks : Nat) : List Move :=
  .order ⟨.startFlow 0, none⟩ :: List.replicate ticks (.tick none)

/-- The next task of the loop. -/
def strandedTask : Task := ⟨⟨0, 0⟩, 1, false⟩

/-- The state in which that is run. -/
def stranded (ticks : Nat) : Engine :=
  ((runTasks handler 0 none {}
    ((built strandedDefinition {} .absent {}).after (strandedMoves ticks))).2.debuggerBlocks
      strandedTask).2.takeTask strandedTask

theorem keepsNothing_strandedMoves (ticks : Nat) : ∀ m ∈ strandedMoves ticks, m.KeepsNothing := by
  intro m hm
  rcases List.mem_cons.mp hm with rfl | hm
  · trivial
  · rw [List.eq_of_mem_replicate hm]
    trivial

/-- In the second tick the loop gets its progress; in the third its turn fails, although nothing of it
    has failed before. -/
theorem stranded_spec :
    strandedDefinition.Hostless
    ∧ ((built strandedDefinition {} .absent {}).after (strandedMoves 2)).queue.tasks.head?
      = some strandedTask
    ∧ (stranded 1).hasProgress ⟨0, 0⟩ 1 = false
    ∧ ((stranded 1).runTask handler strandedTask).hasProgress ⟨0, 0⟩ 1 = true
    ∧ ((stranded 2).instance? ⟨0, 0⟩).any (!·.failed) = true
    ∧ ((stranded 2).componentOf? ⟨0, 0⟩ 1).any (·.kind == .loop) = true
    ∧ ((stranded 2).progress? ⟨0, 0⟩ 1).any (fun
      | .loop l =>
        match loopTurn ⟨0, 0⟩ 1 l
          (((stranded 2).beginStep strandedTask).setProgress ⟨0, 0⟩ 1 none) with
        | .error _ _ => true
        | .ok _ _ => false
      | _ => false) = true := by
  decide +kernel

theorem loopFails_stranded : (stranded 2).LoopFails strandedTask := by
  obtain ⟨_, _, _, _, hlive, hkind, hturn⟩ := stranded_spec
  obtain ⟨s, hs, hf⟩ := (Option.any_eq_true _ _).mp hlive
  obtain ⟨record, hc, hk⟩ := (Option.any_eq_true _ _).mp hkind
  obtain ⟨p, hp, hturn⟩ := (Option.any_eq_true _ _).mp hturn
  cases p with
  | loop l =>
    dsimp only at hturn
    split at hturn
    · next err e' hfails =>
      exact ⟨s, record, l, err, e', hs, (Bool.not_eq_true' _).mp hf, hc, eq_of_beq hk, hp, hfails⟩
    · cases hturn
  | _ => cases hturn

/-- The loop gets progress, which is told, and loses it, which is not. -/
theorem progress_told_stranded :
    build strandedDefinition {} .absent {} = .ok (built strandedDefinition {} .absent {})
    ∧ strandedDefinition.Hostless
    ∧ (∃ news, ((stranded 1).runTask handler strandedTask).journal = news ++ (stranded 1).journal
      ∧ .progressChanged ⟨0, 0⟩ 1 ∈ news)
    ∧ ∃ news, ((stranded 2).runTask handler strandedTask).journal = news ++ (stranded 2).journal
      ∧ (stranded 2).hasProgress ⟨0, 0⟩ 1 = true
      ∧ ((stranded 2).runTask handler strandedTask).hasProgress ⟨0, 0⟩ 1 = false
      ∧ .progressChanged ⟨0, 0⟩ 1 ∉ news := by
  have hb : build strandedDefinition {} .absent {}
      = .ok (built strandedDefinition {} .absent {}) := rfl
  obtain ⟨hh, _, hbefore, hafter, _⟩ := stranded_spec
  obtain ⟨⟨news₁, hj₁, htold, _⟩, hplaced⟩ :=
    progress_told hb hh (strandedMoves 1) 0 none {} strandedTask (e := stranded 1) rfl
  obtain ⟨⟨news₂, hj₂, _, hlost⟩, _⟩ :=
    progress_told hb hh (strandedMoves 2) 0 none {} strandedTask (e := stranded 2) rfl
  have hgot := htold ⟨0, 0⟩ 1 (by rw [hbefore, hafter]; decide)
  have hmem : .progressChanged ⟨0, 0⟩ 1 ∈ news₁ := hgot.resolve_right fun hirregular => by
    rcases hirregular.2 with ⟨_, _, l, _, _, _, _, _, _, hp, _⟩ | hmisplaced
    · rw [hasProgress, show (stranded 1).progress? ⟨0, 0⟩ 1 = some (.loop l) from hp] at hbefore
      cases hbefore
    · exact hplaced (keepsNothing_strandedMoves 1) ⟨0, 0⟩ 1 hmisplaced
  exact ⟨hb, hh, ⟨news₁, hj₁, hmem⟩, news₂, hj₂, hlost loopFails_stranded⟩

/-- Not everything that becomes of progress in a task is told. -/
theorem not_all_progress_told :
    ¬ ∀ (d : Definition) (e₀ : Engine) (moves : List Move) (t : Task) (e : Engine)
      (news : List Event), build d {} .absent {} = .ok e₀ → d.Hostless →
      (∀ m ∈ moves, m.KeepsNothing) → (e₀.after moves).queue.tasks.head? = some t →
      e = ((runTasks handler 0 none {} (e₀.after moves)).2.debuggerBlocks t).2.takeTask t →
      (e.runTask handler t).journal = news ++ e.journal →
      ∀ i c, (e.runTask handler t).hasProgress i c ≠ e.hasProgress i c →
        .progressChanged i c ∈ news := by
  intro h
  have hb : build strandedDefinition {} .absent {}
      = .ok (built strandedDefinition {} .absent {}) := rfl
  obtain ⟨hh, hhead, _⟩ := stranded_spec
  have hi : Inv False (stranded 2) := inv_turnOf hb (strandedMoves 2) 0 none {} strandedTask
  obtain ⟨hbefore, hafter, hnews⟩ := hushed_runTask handler hi loopFails_stranded
  obtain ⟨news, hj, _⟩ := id hnews
  refine not_tells_of_adds hnews hj (h _ _ (strandedMoves 2) strandedTask (stranded 2) news hb
    hh (keepsNothing_strandedMoves 2) hhead rfl hj ⟨0, 0⟩ 1 ?_)
  rw [show (stranded 2).hasProgress ⟨0, 0⟩ 1 = true from hbefore,
    show ((stranded 2).runTask handler strandedTask).hasProgress ⟨0, 0⟩ 1 = false from hafter]
  decide

end InstrumentFlow.Engine
