import InstrumentFlow.Proofs.Lifetime.Echo
import InstrumentFlow.Proofs.Storage.Assignments

/-!
# Steps as deposits

The step of any component of the flows is a row of deposits, and where the host hands in no write
targets it never fails for want of what a reference leads to.

* `handles_stepSetVariable`, `handles_stepLoop`, `handles_stepScpi`, ... -- steps in which nobody
  goes;
* `quiet_free` -- the end of an instance brings nothing into storage;
* `Sustains` -- an activity in which instances may go;
* `live_freed` -- a caller whose step is running does not go with the flow that it called;
* `sustains_call`, `sustains_stepFinish` -- calls and their ends;
* `sustains_execute` -- the step of any component.
-/

namespace InstrumentFlow.Engine

open Expression (Points Operand)

section

variable {T : Terms} {e : Engine}

/-! ## 1. Steps without progress -/

theorem handles_stepPass (hs : e.Stock T) (i : InstanceId) (index : Nat) :
    Handles T i (fun _ _ => True) (stepPass i index) e := by
  unfold stepPass
  exact handles_bind hs (handles_pulse hs i index) fun _ _ _ _ _ => handles_pure trivial

/-- The caller of a live instance is there. -/
theorem handles_stepOutput (hs : e.Stock T) (hf : e.forest.Sound) (i : InstanceId) (index : Nat)
    (c : Component) : Handles T i (fun _ _ => True) (stepOutput i index c) e := by
  unfold stepOutput
  refine handles_get ?_
  dsimp only
  split
  · exact handles_throw fun _ _ => rfl
  · exact handles_throw fun _ _ => rfl
  · exact handles_throw fun _ _ => rfl
  next output slot parent component _ _ hparent =>
  obtain ⟨s, hi, hp⟩ := Option.bind_eq_some_iff.mp hparent
  obtain ⟨t, ht⟩ := hf.parent_live hi hp
  have hlive : e.instance? parent ≠ none := Option.ne_none_iff_exists'.mpr ⟨t, ht⟩
  have hv : Fair T e.heap (((e.instance? i).bind (·.input? slot.toNat)).getD .undefined) := by
    cases hv : (e.instance? i).bind (·.input? slot.toNat) with
    | none => exact fair_of_bare ⟨rfl, rfl⟩
    | some v =>
      obtain ⟨s, hi, hget⟩ := Option.bind_eq_some_iff.mp hv
      unfold Instance.input? at hget
      split at hget
      · exact hs.slots i s hi v (Array.mem_of_getElem? hget)
      · cases hget
  have hpropagate := handles_propagate hs parent component output.toNat hv
  refine handles_bind hs (hpropagate.of_live fun _ => hlive) fun _ _ _ _ _ => ?_
  exact handles_pure trivial

theorem handles_stepEvaluate (hs : e.Stock T) (i : InstanceId) (index : Nat) :
    Handles T i (fun _ _ => True) (stepEvaluate i index) e := by
  unfold stepEvaluate
  refine handles_bind hs (handles_evaluateProperty hs i index 0 [] false) fun v e _ hs hv => ?_
  refine handles_bind hs (handles_propagate hs i index 1 hv.2) fun _ e _ hs _ => ?_
  exact handles_bind hs (handles_pulse hs i index) fun _ _ _ _ _ => handles_pure trivial

theorem handles_assignPair (hs : e.Stock T) (i : InstanceId) (index pair : Nat) :
    Handles T i (fun _ _ => True) (assignPair i index pair) e := by
  unfold assignPair
  refine handles_bind hs (handles_evaluateProperty hs i index _ [] true) fun d e _ hs hd => ?_
  obtain ⟨hlive, hd⟩ := hd
  refine handles_bind hs (handles_evaluateProperty hs i index _ [] false) fun v e he hs hv => ?_
  exact handles_assign hs i index (he.leads hlive hd).points hv.2

theorem handles_assignPairs (hs : e.Stock T) (i : InstanceId) (index : Nat) (pairs : List Nat) :
    Handles T i (fun _ _ => True) (assignPairs i index pairs) e := by
  induction pairs generalizing e with
  | nil => exact handles_pure trivial
  | cons pair pairs ih =>
    exact handles_bind hs (handles_assignPair hs i index pair) fun _ _ _ hs _ => ih hs

theorem handles_stepSetVariable (hs : e.Stock T) (i : InstanceId) (index : Nat) (c : Component) :
    Handles T i (fun _ _ => True) (stepSetVariable i index c) e := by
  unfold stepSetVariable
  refine handles_bind hs (handles_assignPairs hs i index _) fun _ e _ hs _ => ?_
  exact handles_bind hs (handles_pulse hs i index) fun _ _ _ _ _ => handles_pure trivial

theorem handles_stepIsTrue (hs : e.Stock T) (i : InstanceId) (index : Nat) :
    Handles T i (fun _ _ => True) (stepIsTrue i index) e := by
  unfold stepIsTrue
  refine handles_bind hs (handles_evaluateProperty hs i index 0 [] false) fun v e _ hs _ => ?_
  refine handles_get ?_
  exact handles_bind hs (handles_propagate hs i index _ (fair_of_bare ⟨rfl, rfl⟩))
    fun _ _ _ _ _ => handles_pure trivial

theorem handles_stepLog (hs : e.Stock T) (i : InstanceId) (index : Nat) :
    Handles T i (fun _ _ => True) (stepLog i index) e := by
  unfold stepLog
  refine handles_bind hs (handles_evaluateProperty hs i index 0 [] false) fun v e _ hs _ => ?_
  refine handles_bind hs (handles_textOf hs v) fun text e _ hs _ => ?_
  refine handles_modify_bind hs (deposits_record rfl) fun hs => ?_
  exact handles_bind hs (handles_pulse hs i index) fun _ _ _ _ _ => handles_pure trivial

theorem handles_stepError (hs : e.Stock T) (i : InstanceId) (index : Nat) :
    Handles T i (fun _ _ => True) (stepError i index) e := by
  unfold stepError
  refine handles_bind hs (handles_evaluateProperty hs i index 0 [] false) fun v e _ hs _ => ?_
  exact handles_bind hs (handles_textOf hs v) fun text e _ _ _ => handles_throw fun _ _ => rfl

/-! ## 2. Steps with progress -/

/-- The progress of a component is ended, if it has any. -/
theorem handles_checkOff (i : InstanceId) (index : Nat) (hadProgress : Bool) :
    Handles T i (fun _ _ => True) (checkIn i index hadProgress none) e :=
  handles_checkIn (loopsTo_of_ne fun _ => (Option.some_ne_none _).symm) index hadProgress

/-- A pulse that is the last of a step. -/
theorem handles_lastPulse (hs : e.Stock T) (i : InstanceId) (index : Nat) :
    Handles T i (fun _ _ => True) (do pulse i index; return Step.completed) e :=
  handles_bind hs (handles_pulse hs i index) fun _ _ _ _ _ => handles_pure trivial

theorem handles_stepCatch (hs : e.Stock T) (i : InstanceId) (index : Nat) :
    Handles T i (fun _ _ => True) (stepCatch i index) e := by
  unfold stepCatch
  refine handles_bind hs (handles_checkOut hs i index) fun p e _ hs _ => ?_
  split
  · refine handles_bind hs (handles_checkOff i index true) fun _ e _ hs _ => ?_
    refine handles_bind hs (handles_propagate hs i index 1 (fair_of_bare ⟨rfl, rfl⟩))
      fun _ e _ hs _ => ?_
    exact handles_lastPulse hs i index
  · exact handles_pure trivial

theorem handles_stepDelay (hs : e.Stock T) (i : InstanceId) (index : Nat) :
    Handles T i (fun _ _ => True) (stepDelay i index) e := by
  have hwait {e : Engine} (hs : e.Stock T) (hadProgress : Bool) (wakeAt : Nat) :
      Handles T i (fun _ _ => True)
        (do checkIn i index hadProgress (some (.delay wakeAt)); return Step.suspended) e :=
    handles_bind hs (handles_checkIn (p := some (.delay wakeAt))
      (loopsTo_of_ne fun _ h => nomatch h) index hadProgress) fun _ _ _ _ _ => handles_pure trivial
  unfold stepDelay
  refine handles_bind hs (handles_checkOut hs i index) fun p e _ hs _ => ?_
  split
  · refine handles_get ?_
    split
    · exact hwait hs true _
    · refine handles_bind hs (handles_checkOff i index true) fun _ e _ hs _ => ?_
      exact handles_lastPulse hs i index
  · unfold beginDelay
    refine handles_bind hs (handles_evaluateProperty hs i index 0 [] false) fun v e _ hs _ => ?_
    refine handles_get ?_
    split
    · exact hwait hs false _
    · have hbreak : Deposits T True e (e.breakDown .endlessDelay) := deposits_breakDown nofun
      exact handles_set_bind hs hbreak fun _ => handles_pure trivial

theorem handles_stepScpi (hs : e.Stock T) (i : InstanceId) (index : Nat) (c : Component) :
    Handles T i (fun _ _ => True) (stepScpi i index c) e := by
  unfold stepScpi
  refine handles_bind hs (handles_checkOut hs i index) fun p e _ hs _ => handles_get ?_
  dsimp only
  have hparts : Handles T i (fun _ _ => True) (runParts i index (e.flowIndex i) c.payload
    (c.payload.length + 1) (scpiProgress p)) e := handles_runParts hs index _ _ _ _
  have hcaught : Handles T i (fun _ _ => True) (tryCatch (runParts i index (e.flowIndex i) c.payload
      (c.payload.length + 1) (scpiProgress p)) fun err => do
        checkIn i index p.isSome none
        throw err) e := by
    refine yields_tryCatch hparts fun err e' herr => yields_modify_bind ⟨?_, herr.2⟩
    exact herr.1.trans (deposits_settleProgress (loopsTo_of_ne fun _ =>
      (Option.some_ne_none _).symm) index p.isSome)
  refine handles_bind hs hcaught fun outcome e _ hs _ => ?_
  split
  · next s =>
    exact handles_bind hs (handles_checkIn (p := some (.scpi s))
      (loopsTo_of_ne fun _ h => nomatch h) index _) fun _ _ _ _ _ => handles_pure trivial
  · refine handles_bind hs (handles_checkOff i index _) fun _ e _ hs _ => ?_
    exact handles_lastPulse hs i index

/-! ## 3. Loops -/

/-- The variable of a loop is computed once, and is there in every one of its steps. -/
theorem handles_beginLoop (hs : e.Stock T) (i : InstanceId) (index : Nat) :
    Handles T i (fun _ _ => True) (beginLoop i index) e := by
  unfold beginLoop
  refine handles_bind hs (handles_evaluateProperty hs i index 0 [] true) fun d e₀ _ hs hd => ?_
  obtain ⟨hlive, hd⟩ := hd
  refine handles_bind hs (handles_evaluateProperty hs i index 1 [] false)
    fun first e₁ he₁ hs hfirst => ?_
  refine handles_bind hs (handles_evaluateProperty hs i index 2 [] false)
    fun limit e₂ he₂ hs hlimit => ?_
  refine handles_bind hs (handles_evaluateProperty hs i index 3 [] false)
    fun step e₃ he₃ hs hstep => ?_
  have he : Deposits T True e₀ e₃ := (he₁.trans he₂).trans he₃
  have hsince : Deposits T True e₁ e₃ := he₂.trans he₃
  refine handles_bind hs (handles_assign hs i index (he.leads hlive hd).points
    (hsince.fair hfirst.2)) fun _ e₄ he₄ hs _ => ?_
  have hall : Deposits T True e₀ e₄ := he.trans he₄
  refine handles_bind hs (handles_checkIn (fun l hl => ?_) index false) fun _ e _ hs _ => ?_
  · cases hl
    exact hall.leads hlive hd
  · exact handles_lastPulse hs i index

theorem handles_advanceLoop (hs : e.Stock T) {i : InstanceId} (hlive : e.instance? i ≠ none)
    (index : Nat) {l : LoopProgress} (hl : e.LoopsTo T i (some (.loop l))) :
    Handles T i (fun _ _ => True) (advanceLoop i index l) e := by
  unfold advanceLoop
  refine handles_bind hs (handles_resolved hs .readValue (hl l rfl).points)
    fun current e₁ _ hs he => ?_
  obtain ⟨rfl, _⟩ := he
  split
  · next cause he =>
    refine handles_throw fun _ _ => ?_
    simp [FlowError.isStale, Activity.readsBack, (Expression.arithmetic_error he).2]
  next next hnext =>
  have hbare := fair_of_bare (T := T) (h := e₁.heap) (Expression.arithmetic_bare hnext)
  split
  · refine handles_bind hs (handles_checkOff i index true) fun _ e _ hs _ => ?_
    exact handles_bind hs (handles_propagate hs i index 1 (fair_of_bare ⟨rfl, rfl⟩))
      fun _ _ _ _ _ => handles_pure trivial
  · refine handles_bind hs (handles_assign hs i index (hl l rfl).points hbare)
      fun _ e₂ he₂ hs _ => ?_
    refine handles_bind hs (handles_checkIn (fun l' hl' => ?_) index true) fun _ e _ hs _ => ?_
    · exact he₂.leads hlive (hl l' hl')
    · exact handles_lastPulse hs i index

theorem handles_stepLoop (hs : e.Stock T) (i : InstanceId) (index : Nat) :
    Handles T i (fun _ _ => True) (stepLoop i index) e := by
  unfold stepLoop
  refine handles_bind hs (handles_checkOut hs i index) fun p e _ hs hp => ?_
  split
  · exact handles_advanceLoop hs (hp.2 (Option.some_ne_none _)) index hp.1
  · exact handles_beginLoop hs i index

/-! ## 4. Ends of instances -/

/-- Who is buried leaves the others as they were. -/
theorem quiet_bury (i : InstanceId) (e : Engine) : Quiet False e (bury i e).2 := by
  have hstrip : Quiet False e (e.stripped i) := by
    unfold stripped
    generalize ((e.instance? i).map Instance.openComponents).getD [] = cs
    induction cs generalizing e with
    | nil => exact .refl e
    | cons c cs ih => exact (quiet_releaseProgress e i c).trans (ih _)
  cases hi : e.instance? i with
  | none =>
    rw [bury_of_none hi]
    exact (Quiet.record e rfl).trans (.beside rfl rfl rfl rfl rfl rfl rfl)
  | some s =>
    obtain ⟨s₁, forest, hr, _, he⟩ := bury_of_some hi
    rw [he]
    refine hstrip.trans ⟨rfl, rfl, rfl, rfl, rfl, ?_, fun j t' hj => ?_, False.elim⟩
    · exact List.filter_cons_of_neg (by simp [Event.isStorage])
    · obtain ⟨_, t, l, ht, rfl⟩ := Forest.get?_remove_children hr hj
      exact ⟨t, ht, rfl, rfl, rfl, fun _ => id⟩

/-- **The end of instances** brings nothing into storage. -/
theorem quiet_freeWithin (depth : Nat) (i : InstanceId) (e : Engine) :
    Quiet False e (freeWithin depth i e) := by
  induction depth generalizing i e with
  | zero => exact .refl e
  | succ depth ih =>
    have hchildren (ks : List InstanceId) (e : Engine) :
        Quiet False e (ks.foldl (fun e k => freeWithin depth k e) e) := by
      induction ks generalizing e with
      | nil => exact .refl e
      | cons k ks ihks => exact (ih k e).trans (ihks _)
    unfold freeWithin
    split
    · exact .refl e
    next s _ =>
    have hbury := (hchildren s.children e).trans (quiet_bury i _)
    dsimp only
    generalize s.children.foldl (fun e k => freeWithin depth k e) e = e₁ at hbury ⊢
    split
    · next s₁ e₂ he =>
      rw [he] at hbury
      split
      · next parent component _ _ =>
        unfold endAsyncWith
        split
        · exact hbury
        · have hclear := hbury.trans (quiet_clearAsync e₂ (some i) parent component)
          dsimp only
          split
          · exact hclear.trans (ih parent _)
          · exact hclear
      · exact hbury
    · next e₂ he =>
      rw [he] at hbury
      exact hbury

theorem quiet_free (i : InstanceId) (e : Engine) : Quiet False e (e.free i) :=
  quiet_freeWithin _ i e

theorem quiet_collect (e : Engine) (i : InstanceId) : Quiet False e (e.collect i) := by
  unfold collect
  split
  · exact quiet_free i e
  · exact .refl e

theorem quiet_endAsync (e : Engine) (child : Option InstanceId) (i : InstanceId)
    (component : Nat) : Quiet False e (e.endAsync child i component) := by
  unfold endAsync endAsyncWith
  split
  · exact .refl e
  · have hclear : Quiet False e (e.clearAsync child i component) :=
      quiet_clearAsync e child i component
    dsimp only
    split
    · exact hclear.trans (quiet_free i _)
    · exact hclear

/-! ## 5. Calls and their ends -/

/-- **The activity is a row of deposits**, in which instances may go, and if that is `sure` it does
    not fail for want of what a reference leads to. -/
def Sustains {α : Type} (T : Terms) (sure : Prop) (a : Act α) (e : Engine) : Prop :=
  Yields (fun err e' => Deposits T False e e' ∧ (T.noPlaces → sure → err.isStale = false))
    (fun _ e' => Deposits T False e e') a e

theorem Handles.sustains {α : Type} {i : InstanceId} {Q : α → Engine → Prop} {a : Act α}
    {sure : Prop} (h : Handles T i Q a e) (hl : sure → e.instance? i ≠ none) :
    Sustains T sure a e :=
  Yields.mono h (fun _ _ hf => ⟨hf.1.weaken, fun hn hsure => hf.2 hn (hl hsure)⟩)
    fun _ _ hq => hq.1.weaken

theorem Sustains.after {α : Type} {a : Act α} {sure : Prop} (h : Sustains T sure a e) :
    Deposits T False e (stateAfter (a e)) := by
  unfold stateAfter
  cases ha : a e with
  | ok r e' => exact h.of_ok ha
  | error err e' => exact (h.of_error ha).1

/-- An activity goes on after deposits. -/
theorem Sustains.from {α : Type} {a : Act α} {e' : Engine} {sure sure' : Prop}
    (h : Sustains T sure a e') (hd : Deposits T False e e') (hsure : sure' → sure) :
    Yields (fun err e'' => Deposits T False e e'' ∧ (T.noPlaces → sure' → err.isStale = false))
      (fun _ e'' => Deposits T False e e'') a e' :=
  Yields.mono h (fun _ _ hf => ⟨hd.trans hf.1, fun hn h => hf.2 hn (hsure h)⟩)
    fun _ _ hq => hd.trans hq

theorem deposits_arisen {staying : Prop} {flow : Nat} {f : Flow}
    {parent : Option (InstanceId × Nat)} {isAction : Bool} (hs : e.forest.Sound)
    (hf : e.definition.flows[flow]? = some f)
    (hp : ∀ p, parent = some p → e.forest.contains p.1 = true) (ha : isAction = parent.isSome) :
    Deposits T staying e (e.arisen flow f parent isAction) :=
  (Relation.ReflTransGen.single (.begin hs hf hp ha)).trans (quiet_pingAll _ _ _).deposits

/-- A flow cannot be called for want of the flow, or of the caller. -/
theorem isStale_create {flow : Nat} {parent : Option (InstanceId × Nat)} {isAction : Bool}
    {err : FlowError} {e' : Engine} (he : create flow parent isAction e = .error err e')
    (hp : ∀ p, parent = some p → e.forest.contains p.1 = true) : err.isStale = false := by
  unfold create at he
  rw [get_bind_apply] at he
  cases hf : e.definition.flows[flow]? with
  | none =>
    rw [hf] at he
    cases he
    rfl
  | some f =>
    rw [hf] at he
    dsimp only at he
    split at he
    · next hgone =>
      cases parent with
      | none => cases hgone
      | some p =>
        rw [Option.any_some, hp p rfl] at hgone
        cases hgone
    · cases he

/-- **A caller whose step is running** does not go with the flow that it called. -/
theorem live_freed {closed : Prop} {i child : InstanceId} {component : Nat} (hi : Inv closed e)
    (hx : e.isExecuting i = true) (hl : e.instance? i ≠ none)
    (hc : e.WasCalled child i component) : (e.free child).instance? i ≠ none := by
  have hheld : Held e i component := by
    refine ⟨hl, fun hfall => ?_⟩
    rw [hfall.1] at hx
    cases hx
  have hguard : Guard i (Held · i component)
      (fun c' e => Held e i component ∧ (e.CanFall i → c' ≠ component)) e (.one child) :=
    ⟨hheld, fun _ => .single hc.isCaller⟩
  rcases (free_destroys hi child).guards (guards_held closed i component) hi hguard with h | h
  · exact h.1.1
  · exact h.1.elim

/-- **A call** from a running step can go on afterwards. -/
theorem sustains_call (hi : Inv False e) (hs : e.Stock T) (i : InstanceId) (component flow : Nat) :
    Sustains T (e.isExecuting i = true ∧ e.instance? i ≠ none) (call i component flow) e := by
  unfold call
  rcases create_cases e flow (some (i, component)) true with ⟨err, he⟩ | ⟨f, hf, hp, he⟩
  · refine yields_bind (R := fun _ _ => False) ?_ fun _ _ => False.elim
    unfold Yields
    rw [he]
    refine ⟨.refl, fun _ ⟨_, hl⟩ => isStale_create he ?_⟩
    rintro p ⟨⟩
    exact Forest.contains_iff.mpr (Option.ne_none_iff_exists'.mp hl)
  refine yields_bind (R := fun child e' => child = e.nextId flow f (some (i, component)) true
    ∧ e' = e.arisen flow f (some (i, component)) true) ?_ fun child e' hcreate => ?_
  · unfold Yields
    rw [he]
    exact ⟨rfl, rfl⟩
  obtain ⟨rfl, rfl⟩ := hcreate
  refine yields_modify_bind (yields_get ?_)
  have hpace : Pace False untouched e ((e.arisen flow f (some (i, component)) true).startAsync
      (some (e.nextId flow f (some (i, component)) true)) i component) := .call hf (hp _ rfl)
  have hcall : Deposits T False e ((e.arisen flow f (some (i, component)) true).startAsync
      (some (e.nextId flow f (some (i, component)) true)) i component) :=
    (deposits_arisen hi.sound hf hp rfl).trans (quiet_startAsync _ _ i component).deposits
  have hcalled : ((e.arisen flow f (some (i, component)) true).startAsync
      (some (e.nextId flow f (some (i, component)) true)) i component).WasCalled
        (e.nextId flow f (some (i, component)) true) i component :=
    (wasCalled_startAsync _ _ i component _ i component).mpr (parent_arisen hi hf hp rfl)
  generalize Engine.startAsync _ _ i component = e₁ at hpace hcall hcalled ⊢
  generalize e.nextId flow f (some (i, component)) true = child at hcalled ⊢
  split
  · have hi₁ : Inv False e₁ := (hpace.course hi).inv hi
    have hfree : Deposits T False e ((e₁.free child).record (.returned child i component)) :=
      (hcall.trans (quiet_free child e₁).deposits).trans (deposits_record rfl)
    refine yields_modify_bind (yields_modify_bind ?_)
    refine yields_bind (R := fun _ e' => Deposits T False e e') ?_ fun _ _ h => yields_pure h
    have hpulse : Sustains T (e.isExecuting i = true ∧ e.instance? i ≠ none) (pulse i component)
        ((e₁.free child).record (.returned child i component)) := by
      refine (handles_pulse (hfree.stock hs) i component).sustains fun ⟨hx, _⟩ => ?_
      have hx₁ : e₁.isExecuting i = true := by
        unfold isExecuting at hx ⊢
        rwa [hpace.frame.executing]
      refine live_freed hi₁ hx₁ ?_ hcalled
      obtain ⟨t, ht⟩ := hi₁.sound.caller_live i child hcalled.isCaller
      exact Option.ne_none_iff_exists'.mpr ⟨t, ht⟩
    exact hpulse.from hfree id
  · exact yields_pure hcall

theorem sustains_stepCall (hi : Inv False e) (hs : e.Stock T) (i : InstanceId) (index : Nat)
    (c : Component) :
    Sustains T (e.isExecuting i = true ∧ e.instance? i ≠ none) (stepCall i index c) e := by
  unfold stepCall
  split
  · exact yields_throw ⟨.refl, fun _ _ => rfl⟩
  · exact yields_bind (sustains_call hi hs i index _) fun _ _ h => yields_pure h

/-- **The end of a called flow**: its caller is there, and goes on. -/
theorem sustains_stepFinish (hs : e.Stock T) (hf : e.forest.Sound) (i : InstanceId) :
    Sustains T (e.instance? i ≠ none) (stepFinish i) e := by
  unfold stepFinish
  refine yields_get ?_
  split
  · next hnone => exact yields_throw ⟨.refl, fun _ hl => absurd hnone hl⟩
  next s hi =>
  split
  · next parent component _ hp =>
    obtain ⟨t, ht⟩ := hf.parent_live hi hp
    have hreturn : Deposits T False e (e.record (.returned i parent component)) :=
      deposits_record rfl
    have hpulse : Sustains T (e.instance? i ≠ none) (pulse parent component)
        (e.record (.returned i parent component)) :=
      (handles_pulse (hreturn.stock hs) parent component).sustains fun _ =>
        Option.ne_none_iff_exists'.mpr ⟨t, ht⟩
    refine yields_modify_bind (yields_bind (hpulse.from hreturn id) fun _ e' h => ?_)
    exact yields_modify_bind (yields_pure (h.trans (quiet_endAsync e' _ _ _).deposits))
  · have hask : Quiet False e (e.record .stopAsked) := .record e rfl
    have hstop : Quiet False e { e.record .stopAsked with stopRequested := true } :=
      hask.trans (.beside rfl rfl rfl rfl rfl rfl rfl)
    exact yields_modify_bind (yields_pure hstop.deposits)

/-! ## 6. Any step -/

/-- **The step of any component of the flows** is a row of deposits, and it does not fail for want
    of what a reference leads to. -/
theorem sustains_execute (handler : Handler) (hi : Inv False e) (hs : e.Stock T) {i : InstanceId}
    {index : Nat} {c : Component} (hx : e.executing = some (i, index))
    (hl : e.instance? i ≠ none) (hh : c.kind.isBuiltIn = true) :
    Sustains T True (execute handler i index c) e := by
  have hhandles {Q : Step → Engine → Prop} {a : Act Step} (h : Handles T i Q a e) :
      Sustains T True a e := h.sustains fun _ => hl
  unfold execute
  cases hc : c.kind with
  | start | noop => exact hhandles (handles_stepPass hs i index)
  | finish =>
    exact (sustains_stepFinish hs hi.sound i).from .refl fun _ => hl
  | output => exact hhandles (handles_stepOutput hs hi.sound i index c)
  | callAction =>
    have hrunning : e.isExecuting i = true := by
      unfold isExecuting
      rw [hx]
      exact beq_self_eq_true i
    exact (sustains_stepCall hi hs i index c).from .refl fun _ => ⟨hrunning, hl⟩
  | evalExpr | constant => exact hhandles (handles_stepEvaluate hs i index)
  | setVariable => exact hhandles (handles_stepSetVariable hs i index c)
  | isTrue => exact hhandles (handles_stepIsTrue hs i index)
  | log => exact hhandles (handles_stepLog hs i index)
  | error => exact hhandles (handles_stepError hs i index)
  | catchError => exact hhandles (handles_stepCatch hs i index)
  | delay => exact hhandles (handles_stepDelay hs i index)
  | loop => exact hhandles (handles_stepLoop hs i index)
  | scpi => exact hhandles (handles_stepScpi hs i index c)
  | host code =>
    rw [hc] at hh
    cases hh

end

end InstrumentFlow.Engine
