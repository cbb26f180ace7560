import InstrumentFlow.Proofs.Delivery
import InstrumentFlow.Proofs.Routing.Ascent

/-!
# What becomes of an error

An error goes out of the catch output of its component. A component without one leaves it to the
nearest instance on the way up that has a catch component, and the instances below have failed.
Where there is no such instance the run is to stop.

* `Fatal`, `Handed` -- an error that nobody could take, and one that came to a catch component;
* `Component.searched`, `WalksEnd` -- where a catch component is looked for, and that this ends;
* `Routes` -- **one of the three**: the error is sent, or handed over, or fatal;
* `error_routing` -- every error in every state that a run comes to.
-/

namespace InstrumentFlow

/-- Where a catch component is looked for: an error component is not caught by its own flow. -/
def Component.searched (c : Component) (way : List InstanceId) : List InstanceId :=
  if c.kind = .error then way.tail else way

namespace Engine

/-! ## 1. Fatal errors -/

/-- **A fatal error**: its instance has failed, that is reported once, and the run is to stop. -/
structure Fatal (i : InstanceId) (component : Nat) (message : String) (e e' : Engine) : Prop where
  stopRequested : e'.stopRequested = true
  lastError : e'.lastError = some message
  reports : Reports [.failed i component message] e e'
  failed : e'.instance? i = (e.instance? i).map fun s => { s with failed := true }
  others : ∀ j, j ≠ i → e'.instance? j = e.instance? j
  calm : Calm e e'
  /-- Queue, arrays, global variables and all else stay. -/
  rest : e' = { e with
    forest := e'.forest, stopRequested := e'.stopRequested, lastError := e'.lastError
    journal := e'.journal }

theorem fatal_failFatally (e : Engine) (i : InstanceId) (component : Nat) (message : String) :
    Fatal i component message e (e.failFatally i component message) where
  stopRequested := rfl
  lastError := rfl
  reports := ⟨[.stopAsked, .failed i component message], rfl, rfl⟩
  failed := (instance?_modifyInstance e i i _).trans (if_pos rfl)
  others j hj := (instance?_modifyInstance e i j _).trans (if_neg hj)
  calm := by
    have hfail : Strokes False nobody e (e.failFatally i component message) :=
      strokes_failFatally .refl i component message
    exact hfail.calm
  rest := rfl

/-! ## 2. Errors that come to a catch component -/

/-- **An error came to a catch component**: that keeps the message, the instances below have failed,
    and tasks joined the queue. -/
structure Handed (below : List InstanceId) (catcher : InstanceId) (k : Nat) (message : String)
    (tasks : List Task) (e e' : Engine) : Prop where
  receives : e'.progress? catcher k = some (.catchError message)
  catching : e'.instance? catcher
    = (e.instance? catcher).map (·.setProgress k (some (.catchError message)))
  others : ∀ j, j ≠ catcher → e'.instance? j
    = (e.instance? j).map fun s => if j ∈ below then { s with failed := true } else s
  queue : e'.queue = { e.queue with tasks := e.queue.tasks ++ tasks }
  reports : Reports [] e e'
  calm : Calm e e'
  /-- Arrays, global variables and all else stay, and no stop is asked for. -/
  rest : e' = { e with forest := e'.forest, queue := e'.queue, journal := e'.journal }

section

variable {e : Engine} {below : List InstanceId} {catcher : InstanceId} {k : Nat}

theorem handed_allocateProgress (hc : e.hasComponent catcher k = true) (hb : catcher ∉ below)
    (i : InstanceId) (component : Nat) (message : String) :
    Handed below catcher k message [] e
      (((e.failAll below).record (.routed i component catcher k message)).allocateProgress catcher k
        (.catchError message)) := by
  have hmarks : Calm e ((e.failAll below).record (.routed i component catcher k message)) :=
    (calm_failAll e below).trans (Calm.record _ rfl)
  have hmarked (j : InstanceId) :
      ((e.failAll below).record (.routed i component catcher k message)).instance? j
        = (e.instance? j).map fun s => if j ∈ below then { s with failed := true } else s :=
    instance?_failAll e below j
  have hplace := (hasComponent_calm hmarks).trans hc
  have heq := failAll_eq e below
  generalize hroute : (e.failAll below).record (.routed i component catcher k message) = e₁
    at hmarks hmarked hplace ⊢
  have hset (j : InstanceId) := instance?_setProgress e₁ catcher j k (some (.catchError message))
  have hprogress := progress?_setProgress e₁ catcher catcher k k (some (.catchError message))
  unfold allocateProgress
  rw [if_pos hplace]
  refine ⟨?_, ?_, fun j hj => ?_, ?_, ?_, ?_, ?_⟩
  · rw [if_pos ⟨rfl, rfl⟩, if_pos hplace] at hprogress
    exact hprogress
  · refine (hset catcher).trans ?_
    rw [if_pos rfl, hmarked, Option.map_map]
    simp [hb, Function.comp_def]
  · exact (hset j).trans ((if_neg hj).trans (hmarked j))
  · rw [List.append_nil, ← hroute]
    exact congrArg (·.queue) heq
  · refine ⟨[.progressChanged catcher k, .routed i component catcher k message], ?_, rfl⟩
    rw [← hroute]
    exact congrArg (_ :: _ :: ·.journal) heq
  · have hkept : Calm e₁ (e₁.setProgress catcher k (some (.catchError message))) :=
      Calm.modifyInstance _ catcher fun s => s.frame_setProgress k _
    exact (hmarks.trans hkept).trans (Calm.record _ rfl)
  · unfold setProgress modifyInstance record
    rw [← hroute, heq]
    rfl

section

variable {e' : Engine} {message : String} (h : Handed below catcher k message [] e e')
include h

theorem Handed.refuse (t : Task) :
    Handed below catcher k message [] e (e'.record (.refused t)) where
  receives := h.receives
  catching := h.catching
  others := h.others
  queue := h.queue
  reports := h.reports.trans (.record e' rfl)
  calm := h.calm.trans (Calm.record e' rfl)
  rest := by
    conv_lhs => rw [h.rest]
    rfl

/-- The task of the catch component joins the queue. -/
theorem Handed.push (t : Task) : Handed below catcher k message [t] e
    ({ e' with queue := { e'.queue with tasks := e'.queue.tasks ++ [t] } }.record (.pushed t)) where
  receives := h.receives
  catching := h.catching
  others := h.others
  queue := by
    show ({ e'.queue with tasks := e'.queue.tasks ++ [t] } : TaskQueue) = _
    rw [h.queue, List.append_nil]
  reports := h.reports.trans ⟨[.pushed t], rfl, rfl⟩
  calm := by
    have hqueue : Calm e' { e' with queue := { e'.queue with tasks := e'.queue.tasks ++ [t] } } :=
      .of_eq rfl rfl rfl
    exact (h.calm.trans hqueue).trans (Calm.record _ rfl)
  rest := by
    conv_lhs => rw [h.rest]
    rfl

end

end

/-! ## 3. The three ways -/

/-- **Both walks end**: they come to the same however many steps they are given, once these are no
    fewer than the instances on the way up. -/
structure WalksEnd (i : InstanceId) (record : Component) (way : List InstanceId) (e : Engine) :
    Prop where
  bound : way.length ≤ e.chainBound
  search : ∀ steps, way.length ≤ steps →
    (record.searched way).head?.bind (e.findCatcher steps) = e.nearest (record.searched way)
  marks : ∀ steps, way.length ≤ steps → ∀ catcher,
    markFailed catcher steps i e = e.failAll (way.takeWhile (· != catcher))

/-- **What becomes of an error**: it is sent out of the catch output of its component; or else the
    nearest catch component on the way up keeps it, and the instances below have failed; or there is
    none, or the queue is full, and the run is to stop. -/
def Routes (i : InstanceId) (component : Nat) (record : Component) (message : String)
    (way : List InstanceId) (e e' : Engine) : Prop :=
  match record.catchOutput, e.nearest (record.searched way) with
  | some output, _ => propagate i component output.toNat (.string message) e = .ok ⟨⟩ e'
  | none, some (catcher, k) =>
    ∃ below above, way = below ++ catcher :: above ∧ catcher ∉ below
      ∧ if e.queue.size < e.queue.capacity then
          Handed below catcher k message [⟨catcher, k, false⟩] e e'
        else ∃ e₁, Handed below catcher k message [] e e₁
          ∧ Fatal i component FlowError.queueFull.message e₁ e'
  | none, none => Fatal i component message e e'

section

variable {e : Engine} {i : InstanceId} {way : List InstanceId} {record : Component}

/-- The search begins with the first instance that is looked at. -/
theorem Ascent.searched {s : Instance} (hway : Ascent e i way) (hs : e.instance? i = some s)
    (record : Component) :
    (record.searched way).head? = (if record.kind = .error then s.parent.map (·.1) else some i)
      ∧ ∀ j, (record.searched way).head? = some j → Ascent e j (record.searched way) := by
  unfold Component.searched
  split
  · refine ⟨?_, fun j => hway.tail⟩
    cases hway with
    | root hs' hp =>
      obtain rfl : s = _ := Option.some.inj (hs.symm.trans hs')
      rw [hp]
      rfl
    | call hs' hp h =>
      obtain rfl : s = _ := Option.some.inj (hs.symm.trans hs')
      rw [hp]
      exact h.head?_eq
  · refine ⟨hway.head?_eq, fun j hj => ?_⟩
    rw [hway.head?_eq] at hj
    exact Option.some.inj hj ▸ hway

/-- **Both walks end on a way up.** -/
theorem walksEnd_of_ascent (hf : e.forest.Sound) (hway : Ascent e i way) (record : Component) :
    WalksEnd i record way e where
  bound := Nat.le_of_lt (hway.length_lt_chainBound hf)
  search steps hsteps := by
    obtain ⟨s, hs⟩ := hway.live
    have hsearched := (hway.searched hs record).2
    have hlength : (record.searched way).length ≤ way.length := by
      unfold Component.searched
      split
      · rw [List.length_tail]
        exact Nat.sub_le _ _
      · exact Nat.le_refl _
    cases hhead : (record.searched way).head? with
    | none => rw [List.head?_eq_none_iff.mp hhead]; rfl
    | some j => exact (hsearched j hhead).findCatcher_eq (Nat.le_trans hlength hsteps)
  marks steps hsteps catcher := hway.markFailed_eq catcher hsteps

/-- **An error as it goes along the way up.** -/
theorem raiseError_eq (hway : Ascent e i way) (hends : WalksEnd i record way e)
    {component : Nat} (hc : e.componentOf? i component = some record) (message : String) :
    e.raiseError i component message
      = match record.catchOutput, e.nearest (record.searched way) with
        | some output, _ => e.sendError i component output.toNat message
        | none, some (catcher, k) => e.routeError i component catcher k message
        | none, none => e.failFatally i component message := by
  obtain ⟨s, hs, hrecord⟩ := Option.bind_eq_some_iff.mp hc
  have hsearch := hends.search e.chainBound hends.bound
  rw [(hway.searched hs record).1] at hsearch
  unfold raiseError
  rw [hs]
  dsimp only
  rw [hrecord]
  dsimp only
  rw [hsearch]
  cases record.catchOutput with
  | some output => rfl
  | none => cases e.nearest (record.searched way) <;> rfl

/-- The instance that catches an error lies on the way up, and has a place for the message. -/
theorem catcher_spec {closed : Prop} (hi : Inv closed e) (hway : Ascent e i way)
    {catcher : InstanceId} {k : Nat} (hn : e.nearest (record.searched way) = some (catcher, k)) :
    e.hasComponent catcher k = true
      ∧ ∃ below above, way = below ++ catcher :: above ∧ catcher ∉ below := by
  obtain ⟨below, above, hsearched, hk, _⟩ := nearest_eq_some_iff.mp hn
  have hnodup := hway.nodup hi.sound
  refine ⟨?_, ?_⟩
  · obtain ⟨s, hs, hcatch⟩ := Option.bind_eq_some_iff.mp hk
    unfold catchComponent? at hcatch
    obtain ⟨hlt, _⟩ := List.findIdx?_eq_some_iff_getElem.mp hcatch
    have hc : e.componentOf? catcher k = some _ :=
      (componentOf?_flowOf hs k).trans (List.getElem?_eq_getElem hlt)
    exact hasComponent_of_componentOf? hi hc
  · obtain ⟨front, hfront⟩ : ∃ front, way = front ++ record.searched way := by
      unfold Component.searched
      split
      · exact ⟨way.take 1, by rw [← List.drop_one, List.take_append_drop]⟩
      · exact ⟨[], rfl⟩
    rw [hsearched, ← List.append_assoc] at hfront
    refine ⟨front ++ below, above, hfront, fun hmem => ?_⟩
    rw [hfront] at hnodup
    exact (List.nodup_append.mp hnodup).2.2 catcher hmem catcher List.mem_cons_self rfl

/-- **What becomes of an error that is caught.** -/
theorem routeError_spec (hends : WalksEnd i record way e) {catcher : InstanceId} {k : Nat}
    {below above : List InstanceId} (hk : e.hasComponent catcher k = true)
    (hway : way = below ++ catcher :: above) (hb : catcher ∉ below) (component : Nat)
    (message : String) :
    if e.queue.size < e.queue.capacity then
      Handed below catcher k message [⟨catcher, k, false⟩] e
        (e.routeError i component catcher k message)
    else ∃ e₁, Handed below catcher k message [] e e₁
      ∧ Fatal i component FlowError.queueFull.message e₁
        (e.routeError i component catcher k message) := by
  have hmarks : markFailed catcher e.chainBound i e = e.failAll below := by
    have hbelow : ∀ j ∈ below, (j != catcher) = true := fun j hj => by
      simpa using fun he : j = catcher => hb (he ▸ hj)
    rw [hends.marks e.chainBound hends.bound, hway, List.takeWhile_append_of_pos hbelow,
      List.takeWhile_cons_of_neg (by simp), List.append_nil]
  have hhanded := handed_allocateProgress hk hb i component message
  unfold routeError
  dsimp only
  rw [hmarks]
  generalize ((e.failAll below).record (.routed i component catcher k message)).allocateProgress
    catcher k (.catchError message) = e₁ at hhanded ⊢
  have hqueue : e₁.queue = e.queue := by rw [hhanded.queue, List.append_nil]
  unfold enqueue TaskQueue.push?
  rw [hqueue]
  split
  · exact hqueue ▸ hhanded.push ⟨catcher, k, false⟩
  · exact ⟨_, hhanded.refuse ⟨catcher, k, false⟩, fatal_failFatally _ i component _⟩

end

/-- **Every error goes one of the three ways**, in every state that a run comes to, also in the middle
    of a step, as long as no stop is pending. The walks up the callers, to find whoever catches it
    and to mark those below, both end. -/
theorem error_routing {d : Definition} {e : Engine} (h : Reached d e)
    (hp : e.stopRequested = false) {i : InstanceId} {component : Nat} {record : Component}
    (hc : e.componentOf? i component = some record) (message : String) :
    ∃ way, Ascent e i way ∧ WalksEnd i record way e
      ∧ Routes i component record message way e (e.raiseError i component message) := by
  obtain ⟨s, hs, hrecord⟩ := Option.bind_eq_some_iff.mp hc
  obtain ⟨way, hway⟩ := exists_ascent h.inv.sound hs
  have hends := walksEnd_of_ascent h.inv.sound hway record
  refine ⟨way, hway, hends, ?_⟩
  rw [raiseError_eq hway hends hc message]
  unfold Routes
  cases hout : record.catchOutput with
  | some output =>
    have hgoing : e.stopped = false := h.going (hs ▸ Option.some_ne_none s)
    have hrun : propagate i component output.toNat (.string message) e = .ok ⟨⟩ _ :=
      propagate_eq hp hgoing hc rfl fun c hwire => held_of_wires h hc (.string message) hwire
    dsimp only
    unfold sendError
    rw [hrun]
  | none =>
    cases hn : e.nearest (record.searched way) with
    | none => exact fatal_failFatally e i component message
    | some found =>
      obtain ⟨catcher, k⟩ := found
      obtain ⟨hk, below, above, hsplit, hb⟩ := catcher_spec h.inv hway hn
      exact ⟨below, above, hsplit, hb, routeError_spec hends hk hsplit hb component message⟩

/-- Three flows, each of which calls the next one. Only the first has a catch component. -/
def guardedDefinition : Definition :=
  { flows :=
      [{ name := "main"
         components := [{ kind := .callAction, payload := [1, 0] }, { kind := .catchError }] },
       { name := "middle", components := [{ kind := .callAction, payload := [2, 0] }] },
       { name := "inner", components := [{ kind := .error }] }] }

/-- The innermost flow is called, and its component has yet to run. -/
def guarded : Engine :=
  (built guardedDefinition {} .absent {}).after [.order ⟨.startFlow 0, none⟩, .tick none, .tick none]

theorem ascent_guarded : Ascent guarded ⟨2, 0⟩ [⟨2, 0⟩, ⟨1, 0⟩, ⟨0, 0⟩] := by
  have hparents : (guarded.instance? ⟨2, 0⟩).map Instance.parent = some (some (⟨1, 0⟩, 0))
      ∧ (guarded.instance? ⟨1, 0⟩).map Instance.parent = some (some (⟨0, 0⟩, 0))
      ∧ (guarded.instance? ⟨0, 0⟩).map Instance.parent = some none := by decide +kernel
  obtain ⟨_, hs₂, hp₂⟩ := Option.map_eq_some_iff.mp hparents.1
  obtain ⟨_, hs₁, hp₁⟩ := Option.map_eq_some_iff.mp hparents.2.1
  obtain ⟨_, hs₀, hp₀⟩ := Option.map_eq_some_iff.mp hparents.2.2
  exact .call hs₂ hp₂ (.call hs₁ hp₁ (.root hs₀ hp₀))

/-- An error in the innermost flow comes to the catch component of the outermost one. -/
theorem error_routing_guarded :
    Reached guardedDefinition guarded ∧ guarded.stopRequested = false
    ∧ (guarded.raiseError ⟨2, 0⟩ 0 "no answer").progress? ⟨0, 0⟩ 1
      = some (.catchError "no answer")
    ∧ (guarded.raiseError ⟨2, 0⟩ 0 "no answer").queue
      = { guarded.queue with tasks := guarded.queue.tasks ++ [⟨⟨0, 0⟩, 1, false⟩] } := by
  have hreached : Reached guardedDefinition guarded := reached_after rfl _
  have hgo : guarded.stopRequested = false := by decide +kernel
  have hc : guarded.componentOf? ⟨2, 0⟩ 0 = some { kind := .error } := by decide +kernel
  obtain ⟨way, hway, _, hroutes⟩ := error_routing hreached hgo hc "no answer"
  obtain rfl := hway.unique ascent_guarded
  have hcatcher : guarded.nearest (({ kind := .error } : Component).searched
      [⟨2, 0⟩, ⟨1, 0⟩, ⟨0, 0⟩]) = some (⟨0, 0⟩, 1) := by decide +kernel
  unfold Routes at hroutes
  rw [hcatcher] at hroutes
  obtain ⟨_, _, _, _, hhanded⟩ := hroutes
  rw [if_pos (by decide +kernel)] at hhanded
  exact ⟨hreached, hgo, hhanded.receives, hhanded.queue⟩

end Engine

end InstrumentFlow
