import InstrumentFlow.Proofs.Dialogue.Turn
import InstrumentFlow.Proofs.Engine.Tolerance
import InstrumentFlow.Proofs.Stopping.End

/-!
# Progress that comes and goes

Observers are told when a component gets progress or loses it. Whatever happens outside the steps of
a component tells them so, or leaves its progress alone.

A component takes its progress away for the duration of its step, without telling anybody, and puts
it back, or ends it, before anything can go wrong. A loop that is under way does not: it reads,
adds, compares and assigns while it has no progress.

* `Engine.hasProgress`, `Announces` -- progress of a component came or went only if that was told;
* `Announces.release`, `Announces.allocate`, `Announces.settled` -- so it is where progress is
  given, ended, or put back after a step;
* `others`, `Announces.tolerant` -- and so does every activity that leaves the progress of the
  component alone;
* `progress?_begun`, `Announces.destroys` -- beginnings and ends of instances;
* `Paces.announces` -- **paces that leave the progress of a component alone**;
* `announces_raiseError`, `announces_continueLater`, `announces_tidy` -- what follows a step;
* `loopTurn`, `advanceLoop_eq` -- the part of a step of a loop that is under way;
* `Vacant.announces_settled`, `Vacant.announces_bind` -- between taking progress away and putting it
  back;
* `announces_stepCatch`, `announces_stepDelay`, `announces_stepScpi`, `announces_stepLoop` -- one rule
  for each kind of component with progress;
* `announces_execute`, `announces_elsewhere` -- the step of any component, for its own progress and
  for that of others;
* `announces_runTask` -- **a task**, from what is told during its step.
-/

namespace InstrumentFlow.Engine

/-- Whether a component has progress. -/
def hasProgress (e : Engine) (i : InstanceId) (c : Nat) : Bool := (e.progress? i c).isSome

/-- **The progress of a component came or went only if that was told.** -/
def Announces (i : InstanceId) (c : Nat) (e e' : Engine) : Prop :=
  ∃ news, e'.journal = news ++ e.journal
    ∧ (e'.hasProgress i c ≠ e.hasProgress i c → .progressChanged i c ∈ news)

variable {closed : Prop} {own : Leeway} {i : InstanceId} {c : Nat} {e e' e'' : Engine}

theorem hasProgress_congr (h : e'.progress? i c = e.progress? i c) :
    e'.hasProgress i c = e.hasProgress i c := congrArg Option.isSome h

theorem hasProgress_of_none (h : e.progress? i c = none) : e.hasProgress i c = false :=
  congrArg Option.isSome h

/-! ## 1. Single changes -/

namespace Announces

/-- What was added to the journal is told apart from what was there. -/
theorem mem (h : Announces i c e e') {news : List Event} (hj : e'.journal = news ++ e.journal)
    (hne : e'.hasProgress i c ≠ e.hasProgress i c) : .progressChanged i c ∈ news := by
  obtain ⟨news', hj', hn⟩ := h
  rw [List.append_cancel_right (hj.symm.trans hj')]
  exact hn hne

theorem same (hj : e.journal <:+ e'.journal) (hp : e'.progress? i c = e.progress? i c) :
    Announces i c e e' := by
  obtain ⟨news, hnews⟩ := hj
  exact ⟨news, hnews.symm, fun hne => absurd (hasProgress_congr hp) hne⟩

theorem refl (e : Engine) : Announces i c e e := same List.suffix_rfl rfl

theorem trans (h : Announces i c e e') (h' : Announces i c e' e'') : Announces i c e e'' := by
  obtain ⟨news, hj, hn⟩ := h
  obtain ⟨news', hj', hn'⟩ := h'
  refine ⟨news' ++ news, by rw [hj', hj, List.append_assoc], fun hne => ?_⟩
  by_cases hlater : e''.hasProgress i c = e'.hasProgress i c
  · exact List.mem_append_right _ (hn fun h => hne (hlater.trans h))
  · exact List.mem_append_left _ (hn' hlater)

theorem record (e : Engine) (event : Event) : Announces i c e (e.record event) :=
  same (List.suffix_cons _ _) rfl

/-- The progress of some component is replaced, and that is told. -/
theorem set (e : Engine) (j : InstanceId) (k : Nat) (p : Option Progress) :
    Announces i c e ((e.setProgress j k p).record (.progressChanged j k)) := by
  refine ⟨[.progressChanged j k], rfl, fun hne => ?_⟩
  by_cases hpair : i = j ∧ c = k
  · obtain ⟨rfl, rfl⟩ := hpair
    exact List.mem_singleton_self _
  · have hother : (e.setProgress j k p).progress? i c = e.progress? i c := by
      rw [progress?_setProgress, if_neg hpair]
    exact absurd (hasProgress_congr hother) hne

theorem release (e : Engine) (j : InstanceId) (k : Nat) :
    Announces i c e (e.releaseProgress j k) := by
  unfold releaseProgress
  split
  · exact set e j k none
  · exact refl e

theorem allocate (e : Engine) (j : InstanceId) (k : Nat) (p : Progress) :
    Announces i c e (e.allocateProgress j k p) := by
  unfold allocateProgress
  split
  · exact set e j k (some p)
  · exact refl e

/-- **Progress that is put back**, or not, after it was taken away for a step: what is told is right
    for the step as a whole. -/
theorem settled (hj : e.journal <:+ e'.journal)
    (hplace : e'.hasComponent i c = true) (p : Option Progress) :
    Announces i c e (e'.settleProgress i c (e.hasProgress i c) p) := by
  have hleft : (e'.settleProgress i c (e.hasProgress i c) p).progress? i c = p :=
    progress?_settleProgress hplace _ p
  obtain ⟨news, hnews⟩ := hj
  by_cases hkept : e.hasProgress i c = p.isSome
  · refine ⟨news, ?_, fun hne => absurd ((congrArg Option.isSome hleft).trans hkept.symm) hne⟩
    have hsilent : ¬(e.hasProgress i c != p.isSome) = true := fun h => bne_iff_ne.mp h hkept
    unfold settleProgress
    dsimp only
    rw [if_pos hplace, if_neg hsilent]
    exact hnews.symm
  · refine ⟨.progressChanged i c :: news, ?_, fun _ => List.mem_cons_self⟩
    have htold : (e.hasProgress i c != p.isSome) = true := bne_iff_ne.mpr hkept
    unfold settleProgress
    dsimp only
    rw [if_pos hplace, if_pos htold]
    exact congrArg (.progressChanged i c :: ·) hnews.symm

theorem mark (e : Engine) (j : InstanceId) (k : Nat) (waits : Bool) (event : Event) :
    Announces i c e ((e.record event).markAsync j k waits) := by
  refine same ((List.suffix_cons _ _).trans (journal_markAsync (e.record event) j k waits)) ?_
  unfold markAsync
  split
  · rfl
  · split
    · exact progress?_modifyInstance (e.record event) j (·.setAsync k waits) (fun _ => rfl) i c
    · rfl

/-- **Destructions** report the progress that they end, and nobody gets any. -/
theorem destroys {job : Job} (h : Destroys job e e') : Announces i c e e' := by
  obtain ⟨news, hj, hreleased⟩ := h.releases
  refine ⟨news, hj, fun hne => ?_⟩
  cases hp : e.progress? i c with
  | none =>
    have hnone := h.leaves.progress.empty hp
    exact absurd ((hasProgress_of_none hnone).trans (hasProgress_of_none hp).symm) hne
  | some p =>
    rcases hreleased i c p hp with hkept | htold
    · exact absurd (hasProgress_congr (hkept.trans hp.symm)) hne
    · exact htold

end Announces

/-- Every component but one. -/
def others (i : InstanceId) (c : Nat) (j : InstanceId) (k : Nat) : Bool := !decide (i = j ∧ c = k)

theorem others_ne {j : InstanceId} {k : Nat} (h : others i c j k = true) : ¬(i = j ∧ c = k) :=
  of_decide_eq_false ((Bool.not_eq_true' _).mp h)

/-- **Activities that change the progress of others alone** do not touch what is to be told. -/
theorem Announces.tolerant : Tolerant (others i c) (Announces i c) where
  refl := refl
  trans := trans
  beside hf _ hj := by
    refine same (hj ▸ List.suffix_rfl) ?_
    unfold progress? instance?
    rw [hf]
  record e event _ := record e event
  modifyInstance e j _ _ hp := same List.suffix_rfl (progress?_modifyInstance e j _ hp i c)
  setProgress e j k ho p := by
    refine same List.suffix_rfl ?_
    rw [progress?_setProgress, if_neg (others_ne ho)]
  noteProgress e j k _ := record e (.progressChanged j k)

/-! ## 2. Paces -/

/-- **An instance begins without progress**, and all others keep theirs. -/
theorem progress?_begun (hs : e.forest.Sound) {flow : Nat} {f : Flow}
    {parent : Option (InstanceId × Nat)} {isAction : Bool}
    (hp : ∀ p, parent = some p → e.forest.contains p.1 = true) (ha : isAction = parent.isSome)
    (i : InstanceId) (c : Nat) :
    (e.begun flow f parent isAction).progress? i c = e.progress? i c := by
  have hget : (e.begun flow f parent isAction).instance? i = _ :=
    Forest.get?_insert hs.free (rooted_freshInstance flow f hp ha e.heap) i
  unfold progress?
  rw [hget]
  split
  · next hnew =>
    have hnone : e.instance? i = none := by
      rw [hnew]
      exact nextId_fresh hs.free flow f parent isAction
    rw [hnone, Option.bind_some, Option.bind_none]
    unfold Instance.progress? freshInstance
    dsimp only
    rw [Array.getElem?_replicate]
    split <;> rfl
  · show ((e.instance? i).map _).bind _ = _
    cases e.instance? i with
    | none => rfl
    | some s =>
      rw [Option.map_some, Option.bind_some, Option.bind_some]
      split <;> rfl

theorem Strokes.announces (h : Strokes closed own e e') (hi : Inv closed e)
    (ho : ∀ p, ¬own i c p) : Announces i c e e' :=
  .same (h.touches hi).changes.journal (h.progress?_same ho)

/-- **Paces that leave the progress of a component alone.** -/
theorem Pace.announces (h : Pace closed own e e') (hi : Inv closed e) (ho : ∀ p, ¬own i c p) :
    Announces i c e e' := by
  have harisen {flow : Nat} {f : Flow} {parent : Option (InstanceId × Nat)} {isAction : Bool}
      (hf : e.definition.flows[flow]? = some f)
      (hp : ∀ p, parent = some p → e.forest.contains p.1 = true)
      (ha : isAction = parent.isSome) : Announces i c e (e.arisen flow f parent isAction) := by
    have hpings : Strokes closed untouched (e.begun flow f parent isAction)
        (e.arisen flow f parent isAction) := strokes_arisen flow f parent isAction
    refine .same (changes_arisen hi hf hp ha).journal ?_
    rw [hpings.progress?_same fun _ h => h, progress?_begun hi.sound hp ha]
  cases h with
  | stroke h =>
    have hstroke : Strokes closed own e e' := .single h
    exact hstroke.announces hi ho
  | await j k => exact .mark e j k true _
  | release child j k => exact .mark e j k false _
  | begin hf _ => exact harisen hf (fun _ h => nomatch h) rfl
  | @call flow f j k hf hl =>
    refine (harisen hf ?_ rfl).trans (.mark _ j k true _)
    rintro p ⟨⟩
    exact hl
  | destroy h => exact .destroys h
  | settle _ => exact .record e _
  | stop => exact .same List.suffix_rfl rfl

theorem Paces.announces (h : Paces closed own e e') (hi : Inv closed e) (ho : ∀ p, ¬own i c p) :
    Announces i c e e' := by
  induction h with
  | refl => exact .refl e
  | tail hs h ih => exact ih.trans (h.announces (Paces.inv hs hi) ho)

/-! ## 3. After a step -/

/-- **An error on its way**: the component that catches it gets progress. -/
theorem announces_raiseError (hi : Inv closed e) (j : InstanceId) (k : Nat) (message : String) :
    Announces i c e (e.raiseError j k message) := by
  rcases raiseError_cases hi j k message with hs | ⟨e₁, catcher, k', hs, _, he⟩
  · exact hs.announces hi fun _ h => h
  rw [he]
  have hrouted := (hs.announces hi fun _ h => h : Announces i c e e₁).trans
    (.record e₁ (.routed j k catcher k' message))
  have hcaught := hrouted.trans (.allocate _ catcher k' (.catchError message))
  unfold handOver enqueue
  dsimp only
  generalize Engine.allocateProgress _ catcher k' (.catchError message) = e₂ at hcaught ⊢
  cases e₂.queue.push? ⟨catcher, k', false⟩ with
  | some queue => exact hcaught.trans (.same (List.suffix_cons _ _) rfl)
  | none =>
    refine hcaught.trans (.same ?_ (progress?_failFatally _ j k _ i c))
    exact List.suffix_append [Event.stopAsked, .failed j k _, .refused _] _

theorem announces_continueLater (e : Engine) (j : InstanceId) (k : Nat) :
    Announces i c e (e.continueLater j k) := by
  rcases continueLater_cases e j k with ⟨queue, _, he⟩ | ⟨_, he⟩
  · rw [he]
    exact .same (List.suffix_cons _ _) rfl
  · have hreleased : Announces i c e ((e.record (.refused ⟨j, k, true⟩)).releaseProgress j k) :=
      (Announces.record e _).trans (.release _ j k)
    rw [he]
    refine hreleased.trans (.same ?_ (progress?_failFatally _ j k _ i c))
    exact List.suffix_append [Event.stopAsked, .failed j k _] _

theorem announces_tidy (hi : Inv closed e) (j : InstanceId) (k : Nat) :
    Announces i c e (e.tidy j k) := by
  have htidy : Paces closed untouched e (e.tidy j k) := paces_tidy hi .refl j k
  exact htidy.announces hi fun _ h => h

/-- **What follows from the outcome of a step.** -/
theorem announces_settleOutcome {outcome : EStateM.Result FlowError Engine Step}
    (hi : Inv closed (stateAfter outcome)) (j : InstanceId) (k : Nat) :
    Announces i c (stateAfter outcome) (settleOutcome j k outcome) := by
  have hend (e : Engine) (midway : Bool) : Announces i c e (e.endStep j k midway) :=
    .same (List.suffix_cons _ _) rfl
  match outcome with
  | .ok .completed e => exact hend e false
  | .ok .suspended e => exact (hend e true).trans (announces_continueLater _ j k)
  | .error err e =>
    have hover : Touches closed e (afterStep j k (.error err e)) := touches_afterStep j k hi
    have hrelease : Strokes closed anybody (e.endStep j k false)
        ((e.endStep j k false).releaseProgress j k) := strokes_releaseProgress .refl trivial
    have hi' := hrelease.inv (hover.inv hi)
    exact ((hend e false).trans (.release _ j k)).trans (announces_raiseError hi' j k _)

/-! ## 4. Loops under way -/

/-- **The turn of a loop that is under way**: whether it is over, or else its variable has its next
    value. -/
def loopTurn (i : InstanceId) (index : Nat) (l : LoopProgress) : Act Bool := do
  let current ← resolved .readValue l.destination
  match Expression.arithmetic .add current l.step with
  | .error cause => throw (.evaluation .advanceLoop cause)
  | .ok next =>
    if l.limit.toDouble.lessOrEqual next.toDouble then return true
    else
      assign i index l.destination next
      return false

/-- What a loop does after its turn. -/
def afterTurn (i : InstanceId) (index : Nat) (l : LoopProgress) (isOver : Bool) : Act Step :=
  if isOver then do
    checkIn i index true none
    propagate i index 1 .null
    return .completed
  else do
    checkIn i index true (some (.loop l))
    pulse i index
    return .completed

theorem advanceLoop_eq (i : InstanceId) (index : Nat) (l : LoopProgress) :
    advanceLoop i index l = loopTurn i index l >>= afterTurn i index l := by
  unfold advanceLoop loopTurn
  rw [bind_assoc]
  congr 1
  funext current
  cases Expression.arithmetic .add current l.step with
  | error cause => rfl
  | ok next =>
    dsimp only
    split
    · rfl
    · rw [bind_assoc]
      rfl

theorem Tolerant.maintains_loopTurn {own : InstanceId → Nat → Bool} {R : Engine → Engine → Prop}
    (hR : Tolerant own R) (i : InstanceId) (index : Nat) (l : LoopProgress) :
    Maintains R (loopTurn i index l) := by
  unfold loopTurn
  refine hR.bind (hR.maintains_resolved _ _) fun current => ?_
  split
  · exact hR.throw _
  · split
    · exact hR.pure _
    · exact hR.bind (hR.maintains_assign i index _ _) fun _ => hR.pure _

/-- A component whose progress can only be of one kind has none, if it has none of that kind. -/
theorem progress?_none_of_other {e : Engine} {i : InstanceId} {c : Nat} {k : Kind}
    (hp : ∀ p, e.progress? i c = some p → p.kind? = some k)
    (hother : ∀ p, p.kind? = some k → e.progress? i c ≠ some p) : e.progress? i c = none :=
  Option.eq_none_iff_forall_ne_some.mpr fun p hpr => hother p (hp p hpr) hpr

/-- What is done with the progress that was taken away. -/
theorem upholds_checkOut_bind {α : Type} {P : Engine → Prop} {Q : α → Engine → Prop}
    {f : Option Progress → Act α} (h : Upholds P Q (f (e.progress? i c)) (e.setProgress i c none)) :
    Upholds P Q (checkOut i c >>= f) e := h

section

variable {own : Leeway} {e e' : Engine} {i : InstanceId} {c : Nat} {record : Component}
  (hi : Inv False e)
include hi

theorem upholds_loopTurn (l : LoopProgress) :
    Upholds (Strokes False own e) (fun _ _ => True) (loopTurn i c l) e := by
  unfold loopTurn
  refine upholds_bind (upholds_resolved hi .refl _ _) fun current e h _ => ?_
  split
  · exact upholds_throw h
  · split
    · exact upholds_pure h trivial
    · exact upholds_bind (upholds_assign hi h i c _ False.elim) fun _ e h _ => upholds_pure h trivial

/-! ## 5. Between taking progress away and putting it back -/

theorem vacant_taken : Vacant False (alone i c) e i c (e.setProgress i c none) :=
  ((upholds_checkOut hi .refl (⟨rfl, rfl⟩ : alone i c i c none)).of_ok rfl).1

/-- A component that had no progress still has none. -/
theorem Vacant.announces (h : Vacant False own e i c e') (hn : e.progress? i c = none) :
    Announces i c e e' :=
  .same (h.strokes.touches hi).changes.journal (h.empty.trans hn.symm)

/-- Progress, or none, is put back. -/
theorem Vacant.announces_settled (h : Vacant False own e i c e')
    (hc : e.componentOf? i c = some record) (p : Option Progress) :
    Announces i c e (e'.settleProgress i c (e.hasProgress i c) p) := by
  refine .settled (h.strokes.touches hi).changes.journal ?_ p
  rw [hasComponent_calm h.strokes.calm]
  exact hasComponent_of_componentOf? hi hc

/-- An activity of a component that had no progress, and what follows it. -/
theorem Vacant.announces_bind {α β : Type} {Q : α → Engine → Prop} {a : Act α} {f : α → Act β}
    (h : Vacant False own e i c e') (hn : e.progress? i c = none)
    (ha : Upholds (Strokes False untouched e') Q a e')
    (hf : ∀ r e'', Vacant False own e i c e'' →
      Upholds (Announces i c e) (fun _ _ => True) (f r) e'') :
    Upholds (Announces i c e) (fun _ _ => True) (a >>= f) e' :=
  upholds_bind_within (R := fun _ => Vacant False own e i c)
    (fun _ _ hok => ((h.upholds ha).of_ok hok).1)
    (fun _ _ herror => ((h.upholds ha).of_error herror).announces hi hn) hf

/-- A step that puts progress back and goes on with what leaves all progress alone. -/
theorem Vacant.announces_checkIn {α : Type} {f : PUnit → Act α} (h : Vacant False own e i c e')
    (hc : e.componentOf? i c = some record) {hadProgress : Bool}
    (hp : (e.progress? i c).isSome = hadProgress) (p : Option Progress)
    (hf : ∀ r, Maintains (Announces i c) (f r)) :
    Upholds (Announces i c e) (fun _ _ => True) (checkIn i c hadProgress p >>= f) e' := by
  refine upholds_modify_bind (Announces.tolerant.after (hf ⟨⟩) ?_)
  rw [← hp]
  exact h.announces_settled hi hc p

/-! ## 6. Components with progress -/

variable (hc : e.componentOf? i c = some record)
include hc

theorem announces_stepCatch (hp : ∀ p, e.progress? i c = some p → p.kind? = some .catchError) :
    Upholds (Announces i c e) (fun _ _ => True) (stepCatch i c) e := by
  have hv := vacant_taken (i := i) (c := c) hi
  unfold stepCatch
  refine upholds_checkOut_bind ?_
  split
  · next message hsome =>
    refine hv.announces_checkIn hi hc (by rw [hsome]; rfl) none fun _ => ?_
    exact Announces.tolerant.bind (Announces.tolerant.maintains_propagate _ _ _ _) fun _ =>
      Announces.tolerant.bind (Announces.tolerant.maintains_pulse i c) fun _ =>
        Announces.tolerant.pure _
  · next hother =>
    refine upholds_pure (hv.announces hi (progress?_none_of_other hp fun p hk => ?_)) trivial
    cases p with
    | catchError message => exact hother message
    | _ => cases hk

theorem announces_stepDelay (hp : ∀ p, e.progress? i c = some p → p.kind? = some .delay) :
    Upholds (Announces i c e) (fun _ _ => True) (stepDelay i c) e := by
  have hv := vacant_taken (i := i) (c := c) hi
  have hpure (r : Step) (_ : PUnit) : Maintains (Announces i c) (Pure.pure r : Act Step) :=
    Announces.tolerant.pure r
  unfold stepDelay
  refine upholds_checkOut_bind ?_
  split
  · next wakeAt hsome =>
    have hhad : (e.progress? i c).isSome = true := by rw [hsome]; rfl
    refine upholds_get ?_
    split
    · exact hv.announces_checkIn hi hc hhad _ (hpure .suspended)
    · refine hv.announces_checkIn hi hc hhad none fun _ => ?_
      exact Announces.tolerant.bind (Announces.tolerant.maintains_pulse i c) fun _ => hpure _ ⟨⟩
  · next hother =>
    have hnone : e.progress? i c = none := progress?_none_of_other hp fun p hk => by
      cases p with
      | delay wakeAt => exact hother wakeAt
      | _ => cases hk
    unfold beginDelay
    refine hv.announces_bind hi hnone
      (upholds_evaluateProperty (hv.strokes.inv hi) .refl i c 0 [] false) fun millis e' hv => ?_
    refine upholds_get ?_
    split
    · exact hv.announces_checkIn hi hc (by rw [hnone]; rfl) _ (hpure .suspended)
    · have hbroken : Announces i c e' (e'.breakDown .endlessDelay) :=
        Announces.tolerant.breakDown e' .endlessDelay
      exact upholds_set_bind (upholds_pure ((hv.announces hi hnone).trans hbroken) trivial)

/-- An SCPI component tells of its progress also where its parts fail. -/
theorem announces_stepScpi :
    Upholds (Announces i c e) (fun _ _ => True) (stepScpi i c record) e := by
  have hv := vacant_taken (i := i) (c := c) hi
  have hparts : Upholds (Vacant False (alone i c) e i c) _ _ (e.setProgress i c none) :=
    hv.upholds (upholds_runParts (hv.strokes.inv hi) .refl i c (e.flowIndex i) record.payload
      (record.payload.length + 1) (scpiProgress (e.progress? i c)))
  have hafter := hparts.after
  change Vacant False (alone i c) e i c (stateAfter (e.scpiParts i c record.payload)) at hafter
  have hpulse : Maintains (Announces i c) (pulse i c >>= fun _ => pure Step.completed) :=
    Announces.tolerant.bind (Announces.tolerant.maintains_pulse i c) fun _ =>
      Announces.tolerant.pure _
  unfold Upholds
  rw [stepScpi_eq]
  generalize e.scpiParts i c record.payload = outcome at hafter
  match outcome with
  | .ok (some s) e' => exact ⟨hafter.announces_settled hi hc (some (.scpi s)), trivial⟩
  | .ok none e' => exact Announces.tolerant.after hpulse (hafter.announces_settled hi hc none)
  | .error err e' => exact hafter.announces_settled hi hc none

/-- **A loop**, unless its turn fails while it is under way. -/
theorem announces_stepLoop (hp : ∀ p, e.progress? i c = some p → p.kind? = some .loop)
    (hgoes : ∀ l, e.progress? i c = some (.loop l) →
      ∃ isOver e', loopTurn i c l (e.setProgress i c none) = .ok isOver e') :
    Upholds (Announces i c e) (fun _ _ => True) (stepLoop i c) e := by
  have hv := vacant_taken (i := i) (c := c) hi
  have hpulse (_ : PUnit) : Maintains (Announces i c) (pulse i c >>= fun _ => pure Step.completed) :=
    Announces.tolerant.bind (Announces.tolerant.maintains_pulse i c) fun _ =>
      Announces.tolerant.pure _
  unfold stepLoop
  refine upholds_checkOut_bind ?_
  split
  · next l hsome =>
    have hhad : (e.progress? i c).isSome = true := by rw [hsome]; rfl
    obtain ⟨isOver, e', hok⟩ := hgoes l hsome
    rw [advanceLoop_eq]
    have hturn : Vacant False (alone i c) e i c e' :=
      ((hv.upholds (upholds_loopTurn (hv.strokes.inv hi) l)).of_ok hok).1
    refine upholds_bind_within (R := fun _ => Vacant False (alone i c) e i c)
      (fun _ _ hok' => ?_) (fun _ _ herror => ?_) fun isOver e' hv => ?_
    · rw [hok] at hok'
      exact (EStateM.Result.ok.inj hok').2 ▸ hturn
    · rw [hok] at herror
      cases herror
    · unfold afterTurn
      split
      · refine hv.announces_checkIn hi hc hhad none fun _ => ?_
        exact Announces.tolerant.bind (Announces.tolerant.maintains_propagate _ _ _ _) fun _ =>
          Announces.tolerant.pure _
      · exact hv.announces_checkIn hi hc hhad _ hpulse
  · next hother =>
    have hnone : e.progress? i c = none := progress?_none_of_other hp fun p hk => by
      cases p with
      | loop l => exact hother l
      | _ => cases hk
    have hreads {e' : Engine} (hv : Vacant False (alone i c) e i c e') (property : Nat)
        (target : Bool) : Upholds (Strokes False untouched e') (fun _ _ => True)
          (evaluateProperty i c property [] target) e' :=
      (upholds_evaluateProperty (hv.strokes.inv hi) .refl i c property [] target).mono
        (fun _ h => h) fun _ _ _ _ => trivial
    unfold beginLoop
    refine hv.announces_bind hi hnone (hreads hv 0 true) fun d _ hv => ?_
    refine hv.announces_bind hi hnone (hreads hv 1 false) fun first _ hv => ?_
    refine hv.announces_bind hi hnone (hreads hv 2 false) fun limit _ hv => ?_
    refine hv.announces_bind hi hnone (hreads hv 3 false) fun step _ hv => ?_
    refine hv.announces_bind hi hnone (upholds_assign (hv.strokes.inv hi) .refl i c first
      False.elim) fun _ _ hv => ?_
    exact hv.announces_checkIn hi hc (by rw [hnone]; rfl) _ hpulse

end

/-! ## 7. Any component -/

section

variable {e : Engine} {i : InstanceId} {c : Nat} {record : Component} (handler : Handler)
  (hi : Inv False e) (hc : e.componentOf? i c = some record)
  (hh : record.kind.isBuiltIn = true) (hx : e.executing = some (i, c))
include hi hc hh

/-- **The step of a component tells what becomes of its progress**, where that belongs to it, unless
    it is the failing turn of a loop. -/
theorem announces_execute (hp : ∀ p, e.progress? i c = some p → e.Suits i c p)
    (hgoes : ∀ l, record.kind = .loop → e.progress? i c = some (.loop l) →
      ∃ isOver e', loopTurn i c l (e.setProgress i c none) = .ok isOver e') :
    Announces i c e (stateAfter (execute handler i c record e)) := by
  have hkind {k : Kind} (hk : record.kind = k) (p : Progress) (hpr : e.progress? i c = some p) :
      p.kind? = some k := by
    rw [← (hp p hpr).2, kindOf?, hc, Option.map_some, hk]
  cases hkeeps : record.kind.keepsProgress with
  | false =>
    have hidle : Upholds (Paces False untouched e) (fun r _ => r = .completed)
        (execute handler i c record) e := upholds_executeIdle handler hi hh hkeeps
    exact hidle.after.announces hi fun _ => id
  | true =>
    unfold execute
    cases hk : record.kind with
    | catchError => exact (announces_stepCatch hi hc (hkind hk)).after
    | delay => exact (announces_stepDelay hi hc (hkind hk)).after
    | loop => exact (announces_stepLoop hi hc (hkind hk) fun l => hgoes l hk).after
    | scpi => exact (announces_stepScpi hi hc).after
    | _ =>
      rw [hk] at hkeeps
      cases hkeeps

include hx in
/-- The step of a component tells what becomes of the progress of the others. -/
theorem announces_elsewhere {j : InstanceId} {k : Nat} (hne : ¬(j = i ∧ k = c)) :
    Announces j k e (stateAfter (execute handler i c record e)) :=
  (upholds_executeAlone handler hi hh hc hx).after.announces hi fun _ ho => hne ho

end

/-- **A task tells what becomes of the progress of a component** if its step does. -/
theorem announces_runTask (handler : Handler) {e : Engine} (hi : Inv False e)
    (hh : e.definition.Hostless) (t : Task) {i : InstanceId} {c : Nat}
    (hstep : ∀ s record, e.instance? t.instanceId = some s → s.failed = false →
      e.componentOf? t.instanceId t.component = some record →
      Announces i c (e.beginStep t)
        (stateAfter (execute handler t.instanceId t.component record (e.beginStep t)))) :
    Announces i c e (e.runTask handler t) := by
  unfold runTask
  split
  · exact .refl e
  next s hs =>
  have hrecord := componentOf?_of_live hs t.component
  split
  · exact .same (List.suffix_append [Event.stopAsked, .failed t.instanceId t.component _] _)
      (progress?_failFatally e _ _ _ i c)
  next record hok =>
  rw [hok] at hrecord
  split
  · have hrelease : Strokes False anybody e (e.releaseProgress t.instanceId t.component) :=
      strokes_releaseProgress .refl trivial
    exact (Announces.release e _ _).trans (announces_tidy (hrelease.inv hi) _ _)
  · next hf =>
    have hib := (touches_beginStep hi t).inv hi
    have hafter := (upholds_execute handler hib hrecord rfl (only_componentOf? hh hrecord)).after
    have hia := hafter.inv hib
    have hover := touches_afterStep t.instanceId t.component hia
    have his := (strokes_settleOutcome t.instanceId t.component (hover.inv hia)).inv (hover.inv hia)
    have hbegin : Announces i c e (e.beginStep t) := .same (List.suffix_cons _ _) rfl
    have htold := hbegin.trans (hstep s record hs (eq_false_of_ne_true hf) hrecord)
    exact (htold.trans (announces_settleOutcome hia _ _)).trans (announces_tidy his _ _)

end InstrumentFlow.Engine
