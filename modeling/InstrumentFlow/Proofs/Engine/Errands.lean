import InstrumentFlow.Proofs.Engine.Activities

/-!
# Assignments, progress, errors and requests

More activities that are rows of strokes.

* `upholds_assign` -- a value to a write target;
* `strokes_allocateProgress`, `strokes_releaseProgress`, `strokes_settleProgress` -- progress;
* `Engine.handOver`, `raiseError_cases` -- an error that comes to a catch component, or to nobody;
* `strokes_raiseError` -- an error on its way to whoever catches it;
* `upholds_runParts` -- the parts of a payload with their requests.
-/

namespace InstrumentFlow.Engine

section

variable {closed : Prop} {own : Leeway} {e₀ e : Engine} (h₀ : Inv closed e₀)
  (h : Strokes closed own e₀ e)
include h₀ h

/-! ## 1. Assignments -/

theorem upholds_coerced (prior : Value) {v : Value} (hv : closed → v.Plain) :
    Upholds (Strokes closed own e₀) (fun w _ => closed → w.Plain) (coerced prior v) e := by
  unfold coerced
  refine upholds_get ?_
  split
  · next w hw => exact upholds_pure h fun hc => coerce_plain (hv hc) hw
  · exact upholds_set_bind (upholds_pure (strokes_breakDown h₀ h _) hv)

theorem upholds_writeNative (id : UInt32) {v : Value} (hv : closed → v.Plain) :
    Upholds (Strokes closed own e₀) (fun _ _ => True) (writeNative id v) e := by
  unfold writeNative
  refine upholds_get ?_
  have hrecord : Strokes closed own e₀
      (if e.host.listens then e.record (.nativeWritten id (e.heap.image v)) else e) := by
    split
    · exact strokes_record h _ rfl rfl rfl
    · exact h
  generalize (if e.host.listens then e.record (.nativeWritten id (e.heap.image v)) else e) = e₁
    at hrecord ⊢
  dsimp only
  split
  · refine upholds_set (hrecord.tail (.aside rfl rfl fun hc => ?_)) trivial
    have hp := ((hrecord.inv h₀).plain hc).store
    exact ⟨hp.globals, hp.heap, hp.host.setNative id (hv hc)⟩
  · exact upholds_set_bind (upholds_throw hrecord)

omit h₀ in
theorem strokes_noteAssigned (destination v : Value) :
    Strokes closed own e₀ (e.noteAssigned destination v) := strokes_record h _ rfl rfl rfl

/-- **An assignment** is a row of strokes if its target leads to no slot but a local variable. -/
theorem upholds_assign (i : InstanceId) (component : Nat) {destination : Value} (value : Value)
    (hd : closed → e₀.Aims i destination) :
    Upholds (Strokes closed own e₀) (fun _ _ => True) (assign i component destination value) e := by
  unfold assign
  refine upholds_bind (upholds_resolved h₀ h _ value) fun v e h hv => ?_
  split
  · exact upholds_propagate h₀ h i component _ v
  · exact upholds_writeNative h₀ h _ hv
  · refine upholds_get ?_
    split
    · exact upholds_throw h
    · refine upholds_bind (upholds_coerced h₀ h _ hv) fun w e h hw => ?_
      exact upholds_modify (strokes_writeElement (strokes_noteAssigned h _ w) _ _ hw) trivial
  · refine upholds_get ?_
    split
    · exact upholds_throw h
    · split
      · exact upholds_throw h
      · refine upholds_bind (upholds_coerced h₀ h _ hv) fun w e h hw => ?_
        refine upholds_modify
          (strokes_writeSlot (i := i) (strokes_noteAssigned h _ w) hw fun hc => ?_) trivial
        exact (Aims.calm (strokes_noteAssigned h _ w).calm).mpr (hd hc)
  · refine upholds_get ?_
    split
    · exact upholds_throw h
    · refine upholds_bind (upholds_coerced h₀ h _ hv) fun w e h hw => ?_
      exact upholds_modify (strokes_writeGlobal (strokes_noteAssigned h _ w) _ hw) trivial
  · exact upholds_throw h

/-! ## 2. Progress -/

/-- The progress counts in no slot but a local variable of the instance. -/
def CountsAt (e : Engine) (i : InstanceId) (p : Option Progress) : Prop :=
  ∀ l, p = some (.loop l) → e.Aims i l.destination

omit h₀ in
/-- Progress is given to a component that may have it, or taken away. -/
theorem strokes_setProgress (i : InstanceId) (component : Nat) {p : Option Progress}
    (hn : p = none → own i component none) (hk : ∀ q, p = some q → e₀.MayKeep own i component q)
    (hp : closed → e₀.CountsAt i p) : Strokes closed own e₀ (e.setProgress i component p) := by
  refine h.tail (.progress hn (fun q hq => (hk q hq).of_calm h.calm h.frame)
    fun hc l hl s hs j n hj => ?_)
  obtain ⟨hji, hn⟩ := (Aims.calm h.calm).mpr (hp hc l hl) j n hj
  exact ⟨hji, hn s hs⟩

omit h₀ in
theorem strokes_allocateProgress (i : InstanceId) (component : Nat) {p : Progress}
    (hk : e₀.MayKeep own i component p) (hp : closed → e₀.CountsAt i (some p)) :
    Strokes closed own e₀ (e.allocateProgress i component p) := by
  unfold allocateProgress
  split
  · have hset : Strokes closed own e₀ (e.setProgress i component (some p)) := by
      refine strokes_setProgress h i component (fun h => nomatch h) ?_ hp
      rintro q ⟨⟩
      exact hk
    exact strokes_record hset _ rfl rfl rfl
  · exact h

omit h₀ h in
theorem countsAt_none (e : Engine) (i : InstanceId) : e.CountsAt i none := fun _ h => (nomatch h)

omit h₀ in
theorem strokes_releaseProgress {i : InstanceId} {component : Nat} (hn : own i component none) :
    Strokes closed own e₀ (e.releaseProgress i component) := by
  unfold releaseProgress
  split
  · have hset : Strokes closed own e₀ (e.setProgress i component none) :=
      strokes_setProgress h i component (fun _ => hn) (fun _ hq => (nomatch hq))
        fun _ => countsAt_none e₀ i
    exact strokes_record hset _ rfl rfl rfl
  · exact h

omit h₀ in
theorem strokes_settleProgress (i : InstanceId) (component : Nat) (hadProgress : Bool)
    {p : Option Progress} (hn : p = none → own i component none)
    (hk : ∀ q, p = some q → e₀.MayKeep own i component q) (hp : closed → e₀.CountsAt i p) :
    Strokes closed own e₀ (e.settleProgress i component hadProgress p) := by
  unfold settleProgress
  split
  · have hset := strokes_setProgress h i component hn hk hp
    dsimp only
    split
    · exact strokes_record hset _ rfl rfl rfl
    · exact hset
  · exact h

/-- Progress that is taken away counts in no slot but a local variable. -/
theorem countsAt_progress? (hc : closed) (i : InstanceId) (component : Nat) :
    e₀.CountsAt i (e.progress? i component) := by
  intro l hl
  refine (Aims.calm h.calm).mp fun j n hj => ?_
  unfold progress? at hl
  obtain ⟨s, hs, hp⟩ := Option.bind_eq_some_iff.mp hl
  have hmem : some (.loop l) ∈ s.progress := by
    unfold Instance.progress? at hp
    exact Array.mem_of_getElem? (Option.join_eq_some_iff.mp hp)
  have hcontents := ((h.inv h₀).plain hc).contents i s hs
  obtain ⟨hji, hn⟩ := hcontents.loops l hmem j n hj
  refine ⟨hji, fun s' hs' => ?_⟩
  rw [hs] at hs'
  exact Option.some.inj hs' ▸ hn

/-! ## 3. Errors -/

omit h₀ in
theorem strokes_markFailed (catcher : InstanceId) (steps : Nat) (i : InstanceId) :
    Strokes closed own e₀ (markFailed catcher steps i e) := by
  induction steps generalizing i e with
  | zero => exact h
  | succ steps ih =>
    unfold markFailed
    split
    · exact h
    · split
      · exact h
      · dsimp only
        split
        · exact ih (h.tail (.fail i)) _
        · exact h.tail (.fail i)

omit h₀ h in
/-- Whoever catches an error is a catch component of a live instance. -/
theorem findCatcher_spec {e : Engine} {steps : Nat} {i catcher : InstanceId} {component : Nat}
    (hf : e.findCatcher steps i = some (catcher, component)) :
    (e.componentOf? catcher component).map Component.kind = some .catchError := by
  induction steps generalizing i with
  | zero => cases hf
  | succ steps ih =>
    unfold findCatcher at hf
    split at hf
    · cases hf
    next s hs =>
    split at hf
    · next k hk =>
      obtain ⟨rfl, rfl⟩ := Prod.mk.inj (Option.some.inj hf)
      unfold catchComponent? at hk
      obtain ⟨hlt, hkind, _⟩ := List.findIdx?_eq_some_iff_getElem.mp hk
      unfold componentOf? Definition.component?
      rw [hs, Option.bind_some]
      unfold flowOf at hlt hkind
      cases hflow : e.definition.flows[s.flow]? with
      | none => simp [hflow] at hlt
      | some f =>
        simp only [hflow, Option.getD_some] at hlt hkind
        rw [Option.bind_some, List.getElem?_eq_getElem hlt]
        simpa using hkind
    · obtain ⟨p, hp, hf⟩ := Option.bind_eq_some_iff.mp hf
      exact ih hf

theorem strokes_sendError (i : InstanceId) (component output : Nat) (message : String) :
    Strokes closed own e₀ (e.sendError i component output message) := by
  have hp := upholds_propagate h₀ h i component output (.string message)
  unfold sendError
  split
  · next e' he => exact (hp.of_ok he).1
  · next err e' he => exact strokes_failFatally (hp.of_error he) i component _

/-- Where an error may be kept: at the catch components. -/
def catches (e : Engine) (i : InstanceId) (component : Nat) : Prop :=
  e.kindOf? i component = some .catchError

/-- An error comes to a catch component, which keeps it and is queued. -/
def handOver (e : Engine) (i : InstanceId) (component : Nat) (catcher : InstanceId)
    (catchComponent : Nat) (message : String) : Engine :=
  let e := e.record (.routed i component catcher catchComponent message)
  let e := e.allocateProgress catcher catchComponent (.catchError message)
  match e.enqueue ⟨catcher, catchComponent, false⟩ with
  | (true, e) => e
  | (false, e) => e.failFatally i component FlowError.queueFull.message

omit h₀ in
/-- **An error comes to a catch component** that may keep it. -/
theorem strokes_handOver {message : String} (i : InstanceId) (component : Nat)
    {catcher : InstanceId} {catchComponent : Nat} (hk : e.catches catcher catchComponent)
    (ho : own catcher catchComponent (some (.catchError message))) :
    Strokes closed own e₀ (e.handOver i component catcher catchComponent message) := by
  have hroute : Strokes closed own e
      (e.record (.routed i component catcher catchComponent message)) :=
    .single (.route ho i component)
  have hprogress := strokes_allocateProgress hroute catcher catchComponent
    ⟨ho, ⟨Option.some_ne_none _, hk⟩, fun hg => nomatch hg⟩ fun _ l hl => nomatch hl
  refine h.trans ?_
  unfold handOver
  dsimp only
  generalize Engine.allocateProgress _ catcher catchComponent (.catchError message) = e₁
    at hprogress ⊢
  unfold enqueue
  cases hq : e₁.queue.push? ⟨catcher, catchComponent, false⟩ with
  | some queue =>
    refine hprogress.tail (.push hq (Or.inr (Or.inr ?_)) rfl)
    rwa [componentOf?_calm hprogress.calm]
  | none => exact hprogress.tail (.refuse hq i component)

omit h in
/-- **What becomes of an error**: it is sent out of a catch output, or nobody catches it, or it comes
    to a catch component. -/
theorem raiseError_cases (i : InstanceId) (component : Nat) (message : String) :
    Strokes closed untouched e₀ (e₀.raiseError i component message)
    ∨ ∃ e₁ catcher catchComponent, Strokes closed untouched e₀ e₁
      ∧ e₁.catches catcher catchComponent
      ∧ e₀.raiseError i component message
        = e₁.handOver i component catcher catchComponent message := by
  unfold raiseError
  split
  · exact Or.inl .refl
  split
  · exact Or.inl (strokes_failFatally .refl i component _)
  split
  · exact Or.inl (strokes_sendError h₀ .refl i component _ _)
  dsimp only
  split
  · exact Or.inl (strokes_failFatally .refl i component _)
  · next catcher catchComponent hfind =>
    obtain ⟨start, _, hfind⟩ := Option.bind_eq_some_iff.mp hfind
    have hmark : Strokes closed untouched e₀ (markFailed catcher e₀.chainBound i e₀) :=
      strokes_markFailed .refl catcher e₀.chainBound i
    refine Or.inr ⟨_, catcher, catchComponent, hmark, ?_, rfl⟩
    exact (kindOf?_calm hmark.calm catcher catchComponent).trans (findCatcher_spec hfind)

/-- **An error on its way** is a row of strokes, and no progress comes of it but that of a catch
    component. -/
theorem strokes_raiseError {message : String}
    (hown : ∀ j k, e₀.catches j k → own j k (some (.catchError message))) (i : InstanceId)
    (component : Nat) : Strokes closed own e₀ (e.raiseError i component message) := by
  have huntouched {e₁ e₂ : Engine} (hs : Strokes closed untouched e₁ e₂) : Strokes closed own e₁ e₂ :=
    hs.mono fun _ _ _ hn => hn.elim
  rcases raiseError_cases (h.inv h₀) i component message with hs | ⟨e₁, j, k, hs, hk, he⟩
  · exact h.trans (huntouched hs)
  · have hbefore : Strokes closed own e₀ e₁ := h.trans (huntouched hs)
    have hcatches : e₀.catches j k := (kindOf?_calm hbefore.calm j k).symm.trans hk
    rw [he]
    exact strokes_handOver hbefore i component hk (hown j k hcatches)

omit h in
/-- An error that may go to any catch component. -/
theorem strokes_raised (i : InstanceId) (component : Nat) (message : String) :
    Strokes closed anybody e₀ (e₀.raiseError i component message) :=
  strokes_raiseError h₀ .refl (fun _ _ _ => trivial) i component

/-! ## 4. Requests -/

omit h₀ in
theorem upholds_dispatch (i : InstanceId) (component : Nat) (kind : Scpi.RequestKind)
    (text : String) :
    Upholds (Strokes closed own e₀) (fun _ _ => True) (dispatch i component kind text) e := by
  unfold dispatch
  refine upholds_get ?_
  dsimp only
  split
  · exact upholds_set_bind (upholds_pure
      (strokes_record (h.tail (.request _ _)) _ rfl rfl rfl) trivial)
  · exact upholds_set_bind (upholds_throw (h.tail (.request _ e.dispatcher)))

omit h₀ in
theorem upholds_transact (i : InstanceId) (component : Nat) (kind : Scpi.RequestKind)
    (s : ScpiProgress) :
    Upholds (Strokes closed own e₀) (fun _ _ => True) (transact i component kind s) e := by
  have hpoll (ledger : Scpi.Ledger) : Strokes closed own e₀ { e with ledger } :=
    h.tail (.request ledger e.dispatcher)
  unfold transact
  split
  · refine upholds_modify_bind ?_
    have hlog := strokes_record h (.logged i component (requestEntry kind s.text)) rfl rfl rfl
    exact upholds_bind (upholds_dispatch hlog i component kind s.text) fun _ e h _ =>
      upholds_pure h trivial
  · refine upholds_get ?_
    dsimp only
    split
    · exact upholds_set_bind (upholds_throw (hpoll _))
    · exact upholds_set_bind (upholds_pure (hpoll _) trivial)
    · exact upholds_set_bind (upholds_pure (strokes_record (hpoll _) _ rfl rfl rfl) trivial)

theorem upholds_assignAnswer (i : InstanceId) (component : Nat) (body : List UInt8)
    (answer : String) :
    Upholds (Strokes closed own e₀) (fun _ _ => True) (assignAnswer i component body answer) e := by
  unfold assignAnswer
  refine upholds_bind (upholds_evaluateIn h₀ h _ i body [] true) fun r e h hr => ?_
  refine upholds_bind (upholds_assign h₀ h i component _ fun hc => ?_) fun _ e h _ =>
    upholds_pure h trivial
  exact (Aims.calm h.calm).mp (hr hc)

theorem upholds_runVerb (i : InstanceId) (component : Nat) (kind : Scpi.RequestKind)
    (assigns : Bool) (body : List UInt8) (s : ScpiProgress) :
    Upholds (Strokes closed own e₀) (fun _ _ => True) (runVerb i component kind assigns body s)
      e := by
  unfold runVerb
  refine upholds_bind (upholds_transact h i component kind s) fun r e h _ => ?_
  dsimp only
  split
  · exact upholds_pure h trivial
  next response _ =>
  have hend {e : Engine} (h : Strokes closed own e₀ e) (s : ScpiProgress) :
      Upholds (Strokes closed own e₀) (fun _ _ => True)
        (do
          let consumed ← if assigns then assignAnswer i component body response.text else pure 0
          return Walk.onward { s with cursor := s.cursor + 1 + consumed, text := "" }) e := by
    split
    · exact upholds_bind (upholds_assignAnswer h₀ h i component body _) fun _ e h _ =>
        upholds_pure h trivial
    · exact upholds_pure h trivial
  split
  · exact upholds_get (upholds_throw h)
  · split
    · exact upholds_modify_bind (hend (strokes_record h _ rfl rfl rfl) _)
    · exact hend h _

theorem upholds_runPart (i : InstanceId) (component flow : Nat) (payload : List UInt8)
    (s : ScpiProgress) :
    Upholds (Strokes closed own e₀) (fun _ _ => True) (runPart i component flow payload s) e := by
  unfold runPart
  dsimp only
  split
  · exact upholds_throw h
  · exact upholds_pure h trivial
  · refine upholds_bind (upholds_evaluateIn h₀ h _ i _ [] false) fun r e h _ => ?_
    exact upholds_bind (upholds_textOf h₀ h _) fun _ e h _ => upholds_pure h trivial
  · exact upholds_runVerb h₀ h i component _ _ _ s
  · exact upholds_runVerb h₀ h i component _ _ _ s
  · exact upholds_runVerb h₀ h i component _ _ _ s
  · exact upholds_pure h trivial

/-- **Parts up to the next wait** are a row of strokes. -/
theorem upholds_runParts (i : InstanceId) (component flow : Nat) (payload : List UInt8)
    (more : Nat) (s : ScpiProgress) :
    Upholds (Strokes closed own e₀) (fun _ _ => True)
      (runParts i component flow payload more s) e := by
  induction more generalizing e s with
  | zero => exact upholds_throw h
  | succ more ih =>
    unfold runParts
    refine upholds_bind (upholds_runPart h₀ h i component flow payload s) fun w e h _ => ?_
    split
    · exact ih h _
    · exact upholds_pure h trivial
    · exact upholds_pure h trivial

end

end InstrumentFlow.Engine
