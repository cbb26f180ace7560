import InstrumentFlow.Proofs.Lasting.Unmoved
import InstrumentFlow.Proofs.Transactions.Mute

/-!
# Components that are spared

While a component does nothing itself it keeps the request whose answer it waits for, together with
the progress in which it waits, or it loses both.

* `pendingOf` -- the transaction for which a component waits, as its progress tells;
* `Spares` -- what a component has to do with the instrument is as before, or over;
* `Aside` -- nothing was said to the instrument, and all components but some were spared;
* `Mute.aside`, `Aside.tolerant`, `Aside.arisen` -- what spares components;
* `upholds_aside_execute` -- the steps of all components that are not SCPI ones spare the others.
-/

namespace InstrumentFlow.Engine

/-! ## 1. Progress that waits -/

/-- **The transaction for which a component waits.** -/
def pendingOf (e : Engine) (i : InstanceId) (c : Nat) : Option Nat :=
  (scpiProgress (e.progress? i c)).pending

section

variable {e e' : Engine} {i : InstanceId} {c : Nat}

theorem pendingOf_congr (h : e'.progress? i c = e.progress? i c) :
    e'.pendingOf i c = e.pendingOf i c := by
  unfold pendingOf
  rw [h]

theorem pendingOf_eq_none (h : ∀ s, e.progress? i c ≠ some (.scpi s)) : e.pendingOf i c = none := by
  unfold pendingOf scpiProgress
  split
  · next hp => exact absurd hp (h _)
  · rfl

theorem pendingOf_of_empty (h : e.progress? i c = none) : e.pendingOf i c = none :=
  pendingOf_eq_none fun _ hs => nomatch h.symm.trans hs

/-- Who is gone waits for nothing. -/
theorem progress?_of_gone (h : e.instance? i = none) (c : Nat) : e.progress? i c = none := by
  unfold progress?
  rw [h, Option.bind_none]

/-- What is no concern of a component changes nothing between it and the instrument. -/
theorem Adds.exchange (h : Adds (Event.disturbs i c) e e') :
    exchange i c e'.journal = InstrumentFlow.exchange i c e.journal := by
  obtain ⟨news, hj, hn⟩ := h
  rw [hj]
  exact exchange_append hn

/-- Where nothing is said to the instrument, every component keeps its turn. -/
theorem Adds.inTurn (h : Adds Event.isSpeech e e') (ht : InTurn i c e.journal) :
    InTurn i c e'.journal := by
  obtain ⟨news, hj, hn⟩ := h
  rw [hj]
  exact ht.append fun event hmem x => x.admits_of_not_isSpeech (hn event hmem)

/-- Where no step begins or ends, the same steps are running. -/
theorem Idles.running (h : Idles e e') (i : InstanceId) (c : Nat) :
    (exchange i c e'.journal).running = (exchange i c e.journal).running := by
  obtain ⟨news, hj, hn⟩ := h
  rw [hj]
  clear hj
  induction news with
  | nil => rfl
  | cons event news ih =>
    refine Eq.trans ?_ (ih fun event' hmem => hn event' (List.mem_cons_of_mem event hmem))
    have hidle := hn event List.mem_cons_self
    show ((InstrumentFlow.exchange i c (news ++ e.journal)).heed i c event).running = _
    unfold Exchange.heed
    split
    · cases event with
      | stepped _ | ended _ _ _ => cases hidle
      | progressChanged _ _ =>
        dsimp only
        split <;> rfl
      | _ => rfl
    · rfl

end

/-! ## 2. Sparing -/

/-- **What a component has to do with the instrument** is as before, or over. -/
structure Spares (i : InstanceId) (c : Nat) (e e' : Engine) : Prop where
  running : (exchange i c e'.journal).running = (exchange i c e.journal).running
  waits : (outstanding? i c e'.journal = outstanding? i c e.journal
      ∧ e'.pendingOf i c = e.pendingOf i c)
    ∨ (outstanding? i c e'.journal = none ∧ e'.pendingOf i c = none)

namespace Spares

variable {i : InstanceId} {c : Nat} {e e' e'' : Engine}

theorem same (hx : exchange i c e'.journal = exchange i c e.journal)
    (hp : e'.progress? i c = e.progress? i c) : Spares i c e e' :=
  ⟨congrArg (·.running) hx, Or.inl ⟨congrArg (·.outstanding) hx, pendingOf_congr hp⟩⟩

theorem refl (e : Engine) : Spares i c e e := same rfl rfl

theorem trans (h : Spares i c e e') (h' : Spares i c e' e'') : Spares i c e e'' where
  running := h'.running.trans h.running
  waits := by
    rcases h'.waits with ⟨ho', hp'⟩ | hover
    · rcases h.waits with ⟨ho, hp⟩ | ⟨ho, hp⟩
      · exact Or.inl ⟨ho'.trans ho, hp'.trans hp⟩
      · exact Or.inr ⟨ho'.trans ho, hp'.trans hp⟩
    · exact Or.inr hover

end Spares

/-- **Nothing was said to the instrument**, and all components but some were spared. -/
structure Aside (own : InstanceId → Nat → Bool) (e e' : Engine) : Prop where
  ledger : e'.ledger = e.ledger
  hushed : Adds Event.isSpeech e e'
  spares : ∀ i c, own i c = false → Spares i c e e'

namespace Aside

variable {own : InstanceId → Nat → Bool} {e e' e'' : Engine}

theorem trans (h : Aside own e e') (h' : Aside own e' e'') : Aside own e e'' where
  ledger := h'.ledger.trans h.ledger
  hushed := h.hushed.trans h'.hushed
  spares i c ho := (h.spares i c ho).trans (h'.spares i c ho)

end Aside

theorem Mute.aside {own : InstanceId → Nat → Bool} {e e' : Engine} (h : Mute own e e') :
    Aside own e e' where
  ledger := h.ledger
  hushed := h.news.mono fun _ => Event.disturbsBut_of_isSpeech
  spares i c ho :=
    have hundisturbed : Adds (Event.disturbs i c) e e' :=
      h.news.mono fun _ => Event.disturbsBut_of_disturbs ho
    .same hundisturbed.exchange (h.progress i c ho)

namespace Aside

variable {own : InstanceId → Nat → Bool} {e e' : Engine}

theorem refl (e : Engine) : Aside own e e := (Mute.refl e).aside

theorem record (e : Engine) {event : Event} (h : event.disturbsBut own = false) :
    Aside own e (e.record event) := (Mute.record e h).aside

/-! ## 3. Ends of instances -/

/-- The progress that goes with an instance is no concern of the components of others. -/
theorem undisturbed_stripped (e : Engine) {i j : InstanceId} (hij : j ≠ i) (c : Nat) :
    Adds (Event.disturbs j c) e (e.stripped i) := by
  have hrelease (e : Engine) (k : Nat) : Adds (Event.disturbs j c) e (e.releaseProgress i k) := by
    unfold releaseProgress
    split
    · exact .record _ (decide_eq_false fun hpair => hij hpair.1.symm)
    · exact .refl e
  unfold stripped
  generalize ((e.instance? i).map Instance.openComponents).getD [] = cs
  induction cs generalizing e with
  | nil => exact .refl e
  | cons k cs ih => exact (hrelease e k).trans (ih _)

theorem hushed_stripped (e : Engine) (i : InstanceId) :
    (e.stripped i).ledger = e.ledger ∧ Adds Event.isSpeech e (e.stripped i) := by
  have hrelease (e : Engine) (k : Nat) : (e.releaseProgress i k).ledger = e.ledger
      ∧ Adds Event.isSpeech e (e.releaseProgress i k) := by
    unfold releaseProgress
    split
    · exact ⟨rfl, .record _ rfl⟩
    · exact ⟨rfl, .refl e⟩
  unfold stripped
  generalize ((e.instance? i).map Instance.openComponents).getD [] = cs
  induction cs generalizing e with
  | nil => exact ⟨rfl, .refl e⟩
  | cons k cs ih =>
    have hrest := ih (e.releaseProgress i k)
    exact ⟨hrest.1.trans (hrelease e k).1, (hrelease e k).2.trans hrest.2⟩

/-- **The end of an instance** is the end of what its components wait for. -/
theorem buried {e : Engine} {i : InstanceId} {s : Instance} {forest : Forest}
    (hr : (e.stripped i).forest.remove i = some (s, forest)) :
    Aside own e ((e.stripped i).buried i forest) where
  ledger := (hushed_stripped e i).1
  hushed := (hushed_stripped e i).2.tail rfl
  spares j c _ := by
    by_cases hij : j = i
    · subst hij
      have hx := exchange_destroyed j c (e.stripped j).journal
      refine ⟨(congrArg Exchange.running hx).trans ((Idles.stripped e j).running j c), Or.inr ?_⟩
      exact ⟨congrArg Exchange.outstanding hx,
        pendingOf_of_empty (progress?_of_gone (instance?_buried hr) c)⟩
    · have hlast : Adds (Event.disturbs j c) (e.stripped i) ((e.stripped i).buried i forest) :=
        ⟨[.destroyed i], rfl, fun _ h => List.mem_singleton.mp h ▸ decide_eq_false (Ne.symm hij)⟩
      refine .same ((undisturbed_stripped e hij c).trans hlast).exchange ?_
      have hget := Forest.get?_remove hr j
      have hothers : (e.stripped i).forest.get? j = e.forest.get? j :=
        (progressOnly_stripped e i).others j hij
      rw [if_neg hij, hothers] at hget
      unfold progress?
      rw [show ((e.stripped i).buried i forest).instance? j = _ from hget]
      show _ = (e.forest.get? j).bind _
      cases e.forest.get? j with
      | none => rfl
      | some t =>
        show Instance.progress? (if _ then _ else _) c = _
        split <;> rfl

/-- Nobody is left of an instance that is reported gone once more. -/
theorem echoed {e : Engine} {i : InstanceId} (hn : e.instance? i = none) :
    Aside own e (e.echoed i) where
  ledger := rfl
  hushed := .record e rfl
  spares j c _ := by
    by_cases hij : j = i
    · subst hij
      have hx := exchange_destroyed j c e.journal
      refine ⟨congrArg (·.running) hx, Or.inr ⟨congrArg (·.outstanding) hx, ?_⟩⟩
      exact pendingOf_of_empty (progress?_of_gone hn c)
    · exact .same (exchange_cons_of_not_disturbs (decide_eq_false (Ne.symm hij))) rfl

theorem bury (i : InstanceId) (e : Engine) : Aside own e (Engine.bury i e).2 := by
  cases hi : e.instance? i with
  | none =>
    rw [bury_of_none hi]
    exact echoed hi
  | some s =>
    obtain ⟨s₁, forest, hr, _, he⟩ := bury_of_some hi
    rw [he]
    exact buried hr

/-- **Small changes, and ends of instances**, say nothing to the instrument and spare who is left
    there. -/
theorem tolerant : Tolerant own (Aside own) where
  refl := refl
  trans := trans
  beside hf hl hj := (Mute.beside hf hl hj).aside
  record e _ h := (Mute.tolerant.record e h).aside
  modifyInstance e i _ ha hp := (Mute.tolerant.modifyInstance e i ha hp).aside
  setProgress e _ _ ho p := (Mute.setProgress e ho p).aside
  noteProgress e _ _ ho := (Mute.tolerant.noteProgress e ho).aside

section

variable {closed : Prop} {e : Engine} (hi : Inv closed e)
include hi

/-! ## 4. Beginnings of instances -/

/-- **The beginning of an instance** spares all that are there. -/
theorem arisen (flow : Nat) (f : Flow) {parent : Option (InstanceId × Nat)} {isAction : Bool}
    (hp : ∀ p, parent = some p → e.forest.contains p.1 = true) (ha : isAction = parent.isSome) :
    Aside own e (e.arisen flow f parent isAction) := by
  have hsaid {found : Reading} :
      (@Event.created (e.nextId flow f parent isAction) flow found).isSpeech = false := rfl
  have hbegun : Aside own e (e.begun flow f parent isAction) := by
    refine ⟨rfl, .record e hsaid, fun j c _ => ?_⟩
    refine .same (exchange_cons_of_not_disturbs rfl) ?_
    have hget : (e.begun flow f parent isAction).instance? j = _ :=
      Forest.get?_insert hi.sound.free (rooted_freshInstance flow f hp ha e.heap) j
    unfold progress?
    rw [hget]
    split
    · next hj =>
      have hnew : e.instance? j = none := by
        rw [hj]
        exact nextId_fresh hi.sound.free flow f parent isAction
      rw [hnew, Option.bind_some, Option.bind_none]
      unfold Instance.progress? freshInstance
      dsimp only
      rw [Array.getElem?_replicate]
      split <;> rfl
    · show _ = (e.forest.get? j).bind _
      cases e.forest.get? j with
      | none => rfl
      | some t =>
        show Instance.progress? (if _ then _ else _) c = _
        split <;> rfl
  exact hbegun.trans (tolerant.pingAll _ _ _)

end

end Aside

/-! ## 5. Activities -/

section

variable {own : InstanceId → Nat → Bool} {closed : Prop} {e : Engine} (hi : Inv closed e)
include hi

/-- A flow that begins spares all components that are there. -/
theorem upholds_aside_create (flow : Nat) {parent : Option (InstanceId × Nat)} {isAction : Bool}
    (ha : isAction = parent.isSome) :
    Upholds (Aside own e) (fun _ _ => True) (create flow parent isAction) e := by
  unfold Upholds
  rcases create_cases e flow parent isAction with ⟨err, he⟩ | ⟨f, _, hp, he⟩
  · rw [he]
    exact .refl e
  · rw [he]
    exact ⟨.arisen hi flow f hp ha, trivial⟩

/-- **So does a call.** -/
theorem upholds_aside_call (i : InstanceId) (component flow : Nat) :
    Upholds (Aside own e) (fun _ _ => True) (call i component flow) e := by
  unfold call
  refine upholds_bind (upholds_aside_create hi flow rfl) fun child e' hcreated _ => ?_
  have hwaits := hcreated.trans (Mute.startAsync e' (some child) i component).aside
  refine upholds_modify_bind (upholds_get ?_)
  split
  · refine upholds_modify_bind (upholds_modify_bind ?_)
    have hreturned {e : Engine} : Aside own e (e.record (.returned child i component)) :=
      .record e rfl
    have hfree := (hwaits.trans (Aside.tolerant.free Aside.bury child _)).trans hreturned
    exact upholds_bind (Aside.tolerant.after (Aside.tolerant.maintains_pulse i component) hfree)
      fun _ _ h _ => upholds_pure h trivial
  · exact upholds_pure hwaits trivial

theorem upholds_aside_stepCall (i : InstanceId) (index : Nat) (c : Component) :
    Upholds (Aside own e) (fun _ _ => True) (stepCall i index c) e := by
  unfold stepCall
  split
  · exact upholds_throw (.refl e)
  · exact upholds_bind (upholds_aside_call hi i index _) fun _ _ h _ => upholds_pure h trivial

omit hi in
theorem upholds_aside_stepFinish (i : InstanceId) :
    Upholds (Aside own e) (fun _ _ => True) (stepFinish i) e := by
  unfold stepFinish
  refine upholds_get ?_
  split
  · exact upholds_throw (.refl e)
  split
  · next parent component _ _ =>
    have htold : Aside own e (e.record (.returned i parent component)) := .record e rfl
    have hpulse := Aside.tolerant.after (Aside.tolerant.maintains_pulse parent component) htold
    refine upholds_modify_bind (upholds_bind hpulse fun _ e' h _ => ?_)
    exact upholds_modify_bind
      (upholds_pure (h.trans (Aside.tolerant.endAsync Aside.bury e' _ _ _)) trivial)
  · have htold : Aside own e (e.record .stopAsked) := .record e rfl
    exact upholds_modify_bind
      (upholds_pure (htold.trans (Aside.tolerant.beside rfl rfl rfl)) trivial)

/-- **The step of a component that is no SCPI one** says nothing to the instrument, and spares all
    other components. -/
theorem upholds_aside_execute (handler : Handler) {i : InstanceId} {index : Nat} {c : Component}
    (ho : own i index = true) (hh : c.kind.isBuiltIn = true) (hc : c.kind ≠ .scpi) :
    Upholds (Aside own e) (fun _ _ => True) (execute handler i index c) e := by
  cases hk : c.kind with
  | finish =>
    unfold execute
    rw [hk]
    exact upholds_aside_stepFinish i
  | callAction =>
    unfold execute
    rw [hk]
    exact upholds_aside_stepCall hi i index c
  | scpi => exact absurd hk hc
  | host _ =>
    rw [hk] at hh
    cases hh
  | _ =>
    have hmodest : c.kind.isModest = true := by rw [hk]; rfl
    exact Aside.tolerant.maintains_execute ho handler hmodest e

end

end InstrumentFlow.Engine
