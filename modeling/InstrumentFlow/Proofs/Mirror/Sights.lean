import InstrumentFlow.Proofs.Engine.Run

/-!
# What observers see

Whatever a running program does is a row of sights. By a sight at most one event happens, only
what the event tells of may hold something else afterwards, and the host that reads when it is told
finds that already.

* `Event.shows` -- the places of which an event tells;
* `Event.found?` -- what the host can read when it is told;
* `Sight`, `Sights` -- one sight; sights in a row;
* `Stroke.sights`, `Destroys.sights`, `Pace.sights`, `Leaps.sights` -- so is everything that happens.
-/

namespace InstrumentFlow

/-- Whether the host can tell from an event that a place may hold something else: the place changed,
    or it belongs to a new instance. -/
def Event.shows : Event → Location → Bool
  | .changed l, l' => l == l'
  | .created i _, .slot j _ => i == j
  | _, _ => false

/-- What the host can read when it is told that a place changed or that an instance began. -/
def Event.found? : Event → Option Reading
  | @changed _ found | @created _ _ found => some found
  | _ => none

/-- With every event that shows a place comes what can be read. -/
theorem Event.exists_found?_of_shows {event : Event} {l : Location} (h : event.shows l = true) :
    ∃ found, event.found? = some found := by
  cases event with
  | changed _ | created _ _ => exact ⟨_, rfl⟩
  | _ => cases h

/-- An event that shows a place tells of just this place, or that its instance begins. -/
theorem Event.shows_cases {event : Event} {l : Location} (h : event.shows l = true) :
    (∃ r, event = @Event.changed l r) ∨ ∃ i flow r n, event = @Event.created i flow r ∧
      l = .slot i n := by
  cases event with
  | @changed l' r =>
    obtain rfl : l' = l := eq_of_beq h
    exact Or.inl ⟨r, rfl⟩
  | @created i flow r =>
    cases l with
    | slot j n =>
      obtain rfl : i = j := eq_of_beq h
      exact Or.inr ⟨i, flow, r, n, rfl, rfl⟩
    | _ => cases h
  | _ => cases h

namespace Engine

/-! ## 1. Sights -/

theorem content?_slot (e : Engine) (i : InstanceId) (n : Nat) :
    e.content? (.slot i n) = (e.instance? i).bind (·.values[n]?) := rfl

/-- A slot that can be read belongs to a live instance. -/
theorem live_of_content? {e : Engine} {i : InstanceId} {n : Nat}
    (h : e.content? (.slot i n) ≠ none) : e.instance? i ≠ none := by
  intro hn
  rw [content?_slot, hn] at h
  exact h rfl

/-- **One sight.** At most one event happens. Where there is something else afterwards, the event
    shows the place, and the host that reads then finds what there is; only a new handle is given
    out, and only the slots of an instance that goes can be read no more. -/
structure Sight (e : Engine) (event? : Option Event) (e' : Engine) : Prop where
  journal : e'.journal = event?.toList ++ e.journal
  shown : ∀ l, e'.content? l ≠ none → e'.content? l ≠ e.content? l →
    event?.any (·.shows l) = true
  found : ∀ r, event?.bind (·.found?) = some r → r = e'.content?
  fresh : ∀ i flow r, event? = some (@Event.created i flow r) → e.instance? i = none
  lost : ∀ l, e.content? l ≠ none → e'.content? l = none →
    ∃ i n, l = .slot i n ∧ event? = some (.destroyed i)

/-- Sights in a row. -/
abbrev Sights : Engine → Engine → Prop :=
  Relation.ReflTransGen fun e e' => ∃ event?, Sight e event? e'

namespace Sight

variable {e e' : Engine}

/-- The same instances hold the same values. -/
theorem content?_eq (hv : ∀ i, (e'.instance? i).map (·.values) = (e.instance? i).map (·.values))
    (hg : e'.globals = e.globals) (l : Location) : e'.content? l = e.content? l := by
  have hbind (o : Option Instance) (n : Nat) :
      o.bind (·.values[n]?) = (o.map (·.values)).bind (·[n]?) := by
    cases o <;> rfl
  cases l with
  | slot i n =>
    rw [content?_slot, content?_slot, hbind, hbind, hv i]
  | global n => exact congrArg (·[n]?) hg
  | element n => rfl

/-- A change of what no place holds, of which nobody is told. -/
theorem still (hj : e'.journal = e.journal)
    (hv : ∀ i, (e'.instance? i).map (·.values) = (e.instance? i).map (·.values))
    (hg : e'.globals = e.globals) : Sight e none e' where
  journal := hj
  shown l _ hl := absurd (content?_eq hv hg l) hl
  found _ h := nomatch h
  fresh _ _ _ h := nomatch h
  lost l hl hn := absurd ((content?_eq hv hg l).symm.trans hn) hl

/-- A change beside the instances and the global variables. -/
theorem beside (hj : e'.journal = e.journal) (hf : e'.forest = e.forest)
    (hg : e'.globals = e.globals) : Sight e none e' := by
  refine still hj (fun i => ?_) hg
  unfold instance?
  rw [hf]

theorem modifyInstance (e : Engine) (i : InstanceId) {change : Instance → Instance}
    (hc : ∀ s, (change s).values = s.values) : Sight e none (e.modifyInstance i change) := by
  refine still rfl (fun j => ?_) rfl
  rw [instance?_modifyInstance]
  split
  · next hj =>
    rw [hj, Option.map_map]
    exact congrArg (fun g => (e.instance? i).map g) (funext hc)
  · rfl

/-- Something happens that shows no place. -/
theorem record (e : Engine) {event : Event} (h : event.found? = none) :
    Sight e (some event) (e.record event) where
  journal := rfl
  shown _ _ hl := absurd rfl hl
  found r hr := nomatch hr.symm.trans h
  fresh i flow r hc := by
    cases hc
    cases h
  lost _ hl hn := absurd hn hl

/-- **A place is written**, and that is told at once. -/
theorem tellChanged {e e₁ : Engine} {l : Location} (hj : e₁.journal = e.journal)
    (hw : ∀ l', l ≠ l' → e₁.content? l' = e.content? l')
    (hk : e.content? l ≠ none → e₁.content? l ≠ none) :
    Sight e (some (@Event.changed l (e₁.tellChanged l).content?)) (e₁.tellChanged l) where
  journal := congrArg (_ :: ·) hj
  shown l' _ hl := by
    by_cases h : l = l'
    · rw [h]
      exact beq_self_eq_true l'
    · exact absurd (hw l' h) hl
  found r hr := (Option.some.inj hr).symm
  fresh _ _ _ h := nomatch h
  lost l' hl hn := by
    have hn : e₁.content? l' = none := hn
    by_cases h : l = l'
    · exact absurd (h ▸ hn) (hk (h ▸ hl))
    · exact absurd ((hw l' h).symm.trans hn) hl

theorem writeSlot (e : Engine) (i : InstanceId) (slot : Nat) (v : Value) :
    Sight e (some (@Event.changed (.slot i slot) (e.writeSlot i slot v).content?))
      (e.writeSlot i slot v) := by
  have hinstance (j : InstanceId) : (e.modifyInstance i (·.setValue slot v)).instance? j
      = if j = i then (e.instance? i).map (·.setValue slot v) else e.instance? j :=
    instance?_modifyInstance e i j _
  unfold Engine.writeSlot
  refine tellChanged rfl (fun l hne => ?_) fun hl => ?_
  · cases l with
    | slot j n =>
      rw [content?_slot, content?_slot, hinstance]
      split
      · next hj =>
        subst hj
        have hn : slot ≠ n := fun h => hne (congrArg (Location.slot j) h)
        cases e.instance? j with
        | none => rfl
        | some s => exact Array.getElem?_setIfInBounds_ne hn
      · rfl
    | global n => rfl
    | element n => rfl
  · rw [content?_slot, hinstance, if_pos rfl]
    rw [content?_slot] at hl
    cases hs : e.instance? i with
    | none =>
      rw [hs] at hl
      exact absurd rfl hl
    | some s =>
      rw [hs, Option.bind_some] at hl
      rw [Option.map_some, Option.bind_some]
      simpa [Instance.setValue] using hl

theorem writeGlobal (e : Engine) (index : Nat) (v : Value) :
    Sight e (some (@Event.changed (.global index) (e.writeGlobal index v).content?))
      (e.writeGlobal index v) := by
  unfold Engine.writeGlobal
  refine tellChanged rfl (fun l hne => ?_) fun hl => ?_
  · cases l with
    | slot j n => rfl
    | global n =>
      have hn : index ≠ n := fun h => hne (congrArg Location.global h)
      exact Array.getElem?_setIfInBounds_ne hn
    | element n => rfl
  · have hl : e.globals[index]? ≠ none := hl
    show (e.globals.setIfInBounds index v)[index]? ≠ none
    simpa using hl

/-- Nobody can read an element of an array from outside. -/
theorem writeElement (e : Engine) (a : ArrayId) (index : Nat) (v : Value) :
    Sight e (some (@Event.changed (.element index) (e.writeElement a index v).content?))
      (e.writeElement a index v) := by
  unfold Engine.writeElement
  exact tellChanged rfl (fun _ _ => rfl) id

/-- Where an instance begins, all others hold what they held. -/
theorem content?_begun (hs : e.forest.Sound) {flow : Nat} {f : Flow}
    {parent : Option (InstanceId × Nat)} {isAction : Bool}
    (hp : ∀ p, parent = some p → e.forest.contains p.1 = true) (ha : isAction = parent.isSome)
    {l : Location} (hl : ∀ n, l ≠ .slot (e.nextId flow f parent isAction) n) :
    (e.begun flow f parent isAction).content? l = e.content? l := by
  have hrooted := rooted_freshInstance flow f hp ha e.heap
  cases l with
  | slot j n =>
    have hj : j ≠ (e.forest.insert (freshInstance flow f parent isAction e.heap).1).1 :=
      fun h => hl n (congrArg (Location.slot · n) h)
    have hget : (e.begun flow f parent isAction).instance? j = _ :=
      Forest.get?_insert hs.free hrooted j
    rw [content?_slot, content?_slot, hget, if_neg hj]
    show ((e.instance? j).map _).bind _ = _
    cases e.instance? j with
    | none => rfl
    | some s =>
      rw [Option.map_some, Option.bind_some, Option.bind_some]
      split <;> rfl
  | global n => rfl
  | element n => rfl

/-- **An instance begins**, and that is told when its slots are there. -/
theorem begun (hs : e.forest.Sound) {flow : Nat} {f : Flow} {parent : Option (InstanceId × Nat)}
    {isAction : Bool} (hp : ∀ p, parent = some p → e.forest.contains p.1 = true)
    (ha : isAction = parent.isSome) :
    Sight e (some (@Event.created (e.nextId flow f parent isAction) flow
      (e.begun flow f parent isAction).content?)) (e.begun flow f parent isAction) where
  journal := rfl
  shown l _ hne := by
    refine Classical.byContradiction fun hother => hne (content?_begun hs hp ha fun n hl => ?_)
    rw [hl] at hother
    exact hother (beq_self_eq_true _)
  found r hr := (Option.some.inj hr).symm
  fresh i flow' r h := by
    cases h
    exact nextId_fresh hs.free flow f parent isAction
  lost l hl hn := by
    refine absurd ((content?_begun hs hp ha fun n h => ?_).symm.trans hn) hl
    rw [h] at hl
    exact live_of_content? hl (nextId_fresh hs.free flow f parent isAction)

section

variable {i : InstanceId} {s : Instance} {forest : Forest}
  (hr : e.forest.remove i = some (s, forest))
include hr

/-- Where an instance ends, all others hold what they held. -/
theorem content?_buried {l : Location} (hl : ∀ n, l ≠ .slot i n) :
    (e.buried i forest).content? l = e.content? l := by
  cases l with
  | slot j n =>
    have hj : j ≠ i := fun h => hl n (congrArg (Location.slot · n) h)
    have hget : (e.buried i forest).instance? j = _ := Forest.get?_remove hr j
    rw [content?_slot, content?_slot, hget, if_neg hj]
    show ((e.instance? j).map _).bind _ = _
    cases e.instance? j with
    | none => rfl
    | some s =>
      rw [Option.map_some, Option.bind_some, Option.bind_some]
      split <;> rfl
  | global n => rfl
  | element n => rfl

/-- **An instance ends**, and that is told. -/
theorem buried : Sight e (some (.destroyed i)) (e.buried i forest) where
  journal := rfl
  shown l hl hne := by
    refine absurd (content?_buried hr fun n h => hl ?_) hne
    have hget : (e.buried i forest).instance? i = _ := Forest.get?_remove hr i
    rw [h, content?_slot, hget, if_pos rfl]
    rfl
  found _ h := nomatch h
  fresh _ _ _ h := nomatch h
  lost l hl hn := by
    refine Classical.byContradiction fun hother => hl ?_
    rw [← content?_buried hr fun n h => hother ⟨i, n, h, rfl⟩]
    exact hn

end

/-- The end of an instance is told once more. -/
theorem echoed (e : Engine) (i : InstanceId) : Sight e (some (.destroyed i)) (e.echoed i) where
  journal := rfl
  shown _ _ hl := absurd rfl hl
  found _ h := nomatch h
  fresh _ _ _ h := nomatch h
  lost _ hl hn := absurd hn hl

end Sight

/-! ## 2. Rows of sights -/

namespace Sights

variable {e e' : Engine}

theorem one {event? : Option Event} (h : Sight e event? e') : Sights e e' := .single ⟨event?, h⟩

theorem record (e : Engine) {event : Event} (h : event.found? = none) :
    Sights e (e.record event) := one (.record e h)

/-- A change beside the instances and the global variables, and an event. -/
theorem noted {event : Event} (hj : e'.journal = e.journal) (hf : e'.forest = e.forest)
    (hg : e'.globals = e.globals) (h : event.found? = none) : Sights e (e'.record event) :=
  (one (.beside hj hf hg)).trans (record e' h)

theorem modifyInstance (e : Engine) (i : InstanceId) {change : Instance → Instance}
    (hc : ∀ s, (change s).values = s.values) : Sights e (e.modifyInstance i change) :=
  one (.modifyInstance e i hc)

theorem clearSlot (e : Engine) (i : InstanceId) (slot : Nat) : Sights e (e.clearSlot i slot) := by
  unfold Engine.clearSlot
  split
  · split
    · exact .refl
    · exact one (.writeSlot e i slot .undefined)
  · exact .refl

theorem failFatally (e : Engine) (i : InstanceId) (component : Nat) (message : String) :
    Sights e (e.failFatally i component message) := by
  have hfail : Sights e (e.modifyInstance i fun s => { s with failed := true }) :=
    modifyInstance e i fun _ => rfl
  have hfailed {e : Engine} : Sights e
      ({ e with lastError := some message }.record (.failed i component message)) :=
    noted rfl rfl rfl rfl
  have hasked {e : Engine} : Sights e (e.record .stopAsked) := record e rfl
  have hpending {e : Engine} : Sights e { e with stopRequested := true } :=
    one (.beside rfl rfl rfl)
  exact ((hfail.trans hfailed).trans hasked).trans hpending

theorem setProgress (e : Engine) (i : InstanceId) (component : Nat) (p : Option Progress) :
    Sights e (e.setProgress i component p) := modifyInstance e i fun _ => rfl

theorem markAsync (e : Engine) (i : InstanceId) (component : Nat) (waits : Bool) :
    Sights e (e.markAsync i component waits) := by
  unfold Engine.markAsync
  split
  · exact .refl
  · split
    · have hmark : Sights e (e.modifyInstance i (·.setAsync component waits)) :=
        modifyInstance e i fun _ => rfl
      exact hmark.trans (record _ rfl)
    · exact .refl

/-- A component begins to wait. -/
theorem startAsync (e : Engine) (child : Option InstanceId) (i : InstanceId) (component : Nat) :
    Sights e (e.startAsync child i component) := by
  have hawaited : Sights e (e.record (.awaited child i component)) := record e rfl
  exact hawaited.trans (markAsync _ i component true)

/-- The waiting of a component ends. -/
theorem clearAsync (e : Engine) (child : Option InstanceId) (i : InstanceId) (component : Nat) :
    Sights e (e.clearAsync child i component) := by
  have hreleased : Sights e (e.record (.released child i component)) := record e rfl
  exact hreleased.trans (markAsync _ i component false)

theorem arrival (e : Engine) (i : InstanceId) (slot target : Nat) (held v : Value) :
    Sights e (e.arrival i slot target held v) := by
  have hsent {e : Engine} : Sights e (e.record (.delivered i slot target v)) := record e rfl
  refine Relation.ReflTransGen.trans ?_ hsent
  unfold offerSlot
  split
  · exact .refl
  · exact one (.writeSlot e i slot v)
  · have hbreak : Sights e (e.breakDown .endlessArray) := one (.beside rfl rfl rfl)
    exact hbreak.trans (one (.writeSlot _ i slot v))

theorem firing (e : Engine) (i : InstanceId) (c : Connection) (held v : Value)
    (queue : TaskQueue) : Sights e (e.firing i c held v queue) := by
  have harrival := arrival e i c.targetInput.toNat c.targetComponent.toNat held v
  have hpush {e : Engine} :
      Sights e ({ e with queue }.record (.pushed ⟨i, c.targetComponent.toNat, false⟩)) :=
    noted rfl rfl rfl rfl
  unfold Engine.firing
  dsimp only
  split
  · exact (harrival.trans hpush).trans (clearSlot _ _ _)
  · exact harrival.trans hpush

theorem releaseProgress (e : Engine) (i : InstanceId) (component : Nat) :
    Sights e (e.releaseProgress i component) := by
  unfold Engine.releaseProgress
  split
  · exact (setProgress e i component none).trans (record _ rfl)
  · exact .refl

theorem setHostState (e : Engine) (i : InstanceId) (component : Nat) (state : Option Int32) :
    Sights e (e.setHostState i component state) := by
  unfold Engine.setHostState
  split
  · unfold allocateProgress
    split
    · exact (setProgress e i component _).trans (record _ rfl)
    · exact .refl
  · exact releaseProgress e i component

theorem continueLater (e : Engine) (i : InstanceId) (component : Nat) :
    Sights e (e.continueLater i component) := by
  rcases continueLater_cases e i component with ⟨queue, _, he⟩ | ⟨_, he⟩
  · rw [he]
    exact noted rfl rfl rfl rfl
  · have hrefused : Sights e (e.record (.refused ⟨i, component, true⟩)) := record e rfl
    rw [he]
    exact (hrefused.trans (releaseProgress _ i component)).trans (failFatally _ i component _)

end Sights

/-! ## 3. Strokes and paces -/

section

variable {closed : Prop} {own : Leeway} {e e' : Engine}

theorem Stroke.sights (h : Stroke closed own e e') : Sights e e' := by
  cases h with
  | @note event hl _ hc =>
    refine .record e ?_
    cases event with
    | created _ _ => cases hl
    | changed _ => cases hc
    | _ => rfl
  | aside he _ _ => exact .one (.beside (by rw [he]) (by rw [he]) (by rw [he]))
  | global _ => exact .one (.writeGlobal e _ _)
  | element _ => exact .one (.writeElement e _ _ _)
  | request _ _ => exact .one (.beside rfl rfl rfl)
  | write _ => exact .one (.writeSlot e _ _ _)
  | progress _ _ _ => exact .setProgress e _ _ _
  | fail i => exact .modifyInstance e i fun _ => rfl
  | route _ _ _ => exact .record e rfl
  | fatal i component message => exact .failFatally e i component message
  | push _ _ _ => exact .noted rfl rfl rfl rfl
  | @refuse t _ i component =>
    have hrefused : Sights e (e.record (.refused t)) := .record e rfl
    exact hrefused.trans (Sights.failFatally _ i component _)
  | arrive _ _ _ => exact .arrival e _ _ _ _ _
  | fire _ _ _ _ _ _ => exact .firing e _ _ _ _ _

theorem Strokes.sights (h : Strokes closed own e e') : Sights e e' := by
  induction h with
  | refl => exact .refl
  | tail _ h ih => exact ih.trans h.sights

/-- **A destruction** is a row of sights. -/
theorem Destroys.sights {job : Job} (h : Destroys job e e') : Sights e e' := by
  have hburied {e : Engine} {i : InstanceId} {s : Instance} {forest : Forest}
      (hr : (e.stripped i).forest.remove i = some (s, forest)) :
      Sights e ((e.stripped i).buried i forest) := by
    have hstrip : Strokes False nobody e (e.stripped i) := strokes_stripped .refl fun _ => rfl
    exact hstrip.sights.trans (Sights.one (.buried hr))
  induction h with
  | gone _ | nil | unheard _ => exact .refl
  | root _ _ hr _ ihk => exact ihk.trans (hburied hr)
  | called _ _ hr _ _ ihk ihw => exact (ihk.trans (hburied hr)).trans ihw
  | again _ _ _ ihk => exact ihk.trans (Sights.one (.echoed _ _))
  | cons _ _ ihk ihks => exact ihk.trans ihks
  | heard _ _ => exact .clearAsync _ _ _ _
  | falls _ _ _ ih => exact (Sights.clearAsync _ _ _ _).trans ih

variable (hi : Inv closed e)
include hi

theorem sights_arisen {flow : Nat} {f : Flow} {parent : Option (InstanceId × Nat)}
    {isAction : Bool} (hp : ∀ p, parent = some p → e.forest.contains p.1 = true)
    (ha : isAction = parent.isSome) : Sights e (e.arisen flow f parent isAction) := by
  have hpings : Strokes False nobody (e.begun flow f parent isAction)
      (e.arisen flow f parent isAction) := strokes_arisen flow f parent isAction
  exact (Sights.one (.begun hi.sound hp ha)).trans hpings.sights

theorem Pace.sights (h : Pace closed own e e') : Sights e e' := by
  cases h with
  | stroke h => exact h.sights
  | await i component => exact .startAsync e none i component
  | release child i component => exact .clearAsync e child i component
  | begin _ _ => exact sights_arisen hi (fun _ h => nomatch h) rfl
  | @call flow f i component _ hl =>
    have hlive : ∀ p, some (i, component) = some p → e.forest.contains p.1 = true := by
      rintro p ⟨⟩
      exact hl
    exact (sights_arisen hi hlive rfl).trans (Sights.startAsync _ _ i component)
  | destroy h => exact h.sights
  | settle _ => exact .record e rfl
  | stop => exact .one (.beside rfl rfl rfl)

/-- **Paces are sights.** -/
theorem Paces.sights (h : Paces closed own e e') : Sights e e' := by
  induction h with
  | refl => exact .refl
  | tail hs h ih => exact ih.trans (h.sights (Paces.inv hs hi))

end

/-! ## 4. Leaps and runs -/

theorem sights_takeTask (e : Engine) (t : Task) : Sights e (e.takeTask t) := .noted rfl rfl rfl rfl

theorem sights_beginStep (e : Engine) (t : Task) : Sights e (e.beginStep t) :=
  .noted rfl rfl rfl rfl

theorem sights_endStep (e : Engine) (i : InstanceId) (component : Nat) (midway : Bool) :
    Sights e (e.endStep i component midway) := .noted rfl rfl rfl rfl

theorem sights_afterStep (i : InstanceId) (component : Nat)
    (outcome : EStateM.Result FlowError Engine Step) :
    Sights (stateAfter outcome) (afterStep i component outcome) := by
  match outcome with
  | .ok .completed e => exact sights_endStep e i component false
  | .ok .suspended e =>
    exact (sights_endStep e i component true).trans (Sights.continueLater _ i component)
  | .error _ e => exact sights_endStep e i component false

/-- **A task of the flows** is a row of sights. -/
theorem sights_runTask {closed : Prop} {e : Engine} (hi : Inv closed e)
    (hh : e.definition.Hostless) (handler : Handler) (t : Task) :
    Sights e (e.runTask handler t) := by
  refine runTask_preserves hi handler (fun c hc => only_componentOf? hh hc)
    (fun hi₁ h hs => hs.trans (h.sights hi₁)) (fun hs => hs.trans (sights_beginStep e t))
    (fun c _ hs => ?_) .refl
  exact hs.trans (sights_afterStep t.instanceId t.component _)

section

variable {closed hostless stateless : Prop} {e e' : Engine} (hi : Inv closed e)
include hi

theorem Leap.sights (h : Leap closed hostless stateless e e') : Sights e e' := by
  cases h with
  | pace _ h => exact h.sights hi
  | raise i component message => exact (strokes_raised hi i component message).sights
  | @task handler t ts hh _ _ =>
    exact (sights_takeTask e t).trans (sights_runTask ((touches_takeTask t).inv hi) hh handler t)
  | @discard t ts _ _ => exact (sights_takeTask e t).trans (Sights.record _ rfl)
  | take _ _ => exact sights_takeTask e _
  | beginStep _ t => exact sights_beginStep e t
  | endStep _ i component midway => exact sights_endStep e i component midway
  | resume _ i component => exact .continueLater e i component
  | restart =>
    have hrestarted : Sights e (e.record .restarted) := .record e rfl
    exact hrestarted.trans (Sights.one (.beside rfl rfl rfl))
  | halt _ =>
    have hhalted : Sights e (e.record .halted) := .record e rfl
    exact hhalted.trans (Sights.one (.beside rfl rfl rfl))
  | setting he _ => exact .one (.beside (by rw [he]) (by rw [he]) (by rw [he]))
  | keep _ i component state => exact .setHostState e i component state

/-- **Leaps are sights.** -/
theorem Leaps.sights (h : Leaps closed hostless stateless e e') : Sights e e' := by
  induction h with
  | refl => exact .refl
  | tail hs h ih => exact ih.trans (h.sights (Leaps.inv hs hi))

end

end Engine

end InstrumentFlow
