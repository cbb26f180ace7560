import InstrumentFlow.Proofs.Engine.Touch

/-!
# Changes

What a running program does, in steps that each keep the invariant: touches, and the five changes in
the life of an instance.

* `Engine.begun`, `buried`, `echoed` -- the state after a beginning, after an end, and after an end
  that is reported once more;
* `Change` -- one change, with what is known where it happens;
* `Change.inv` -- every change keeps the invariant;
* `Changes` -- changes in a row;
* `Changes.journal`, `Changes.reported` -- nothing that happened is forgotten, and who goes is
  reported.
-/

namespace InstrumentFlow

/-! ## 1. Fresh instances and marks -/

/-- Every literal gets one value. -/
theorem Literal.length_materializeList (ls : List Literal) (h : Heap) :
    (Literal.materializeList ls h).1.length = ls.length := by
  induction ls generalizing h with
  | nil => rfl
  | cons l ls ih =>
    unfold Literal.materializeList
    simp [ih]

theorem Instance.links_setAsync (s : Instance) (component : Nat) (waits : Bool) :
    (s.setAsync component waits).links = s.links := rfl

/-- The count of the marks follows a mark that changes. -/
theorem Fits.setAsync {d : Definition} {s : Instance} (h : Fits d s) {component : Nat}
    {waits : Bool} (hlt : component < s.async.size) (hne : s.isAsync component ≠ waits) :
    Fits d (s.setAsync component waits) := by
  obtain ⟨f, hf, hinput, hvalues, hprogress, hasync⟩ := h.flow
  refine ⟨⟨f, hf, hinput, hvalues, hprogress, ?_⟩, ?_⟩
  · simpa [Instance.setAsync] using hasync
  · have hget : s.async[component] = !waits := by
      unfold Instance.isAsync at hne
      rw [Array.getElem?_eq_getElem hlt, Option.getD_some] at hne
      cases hw : waits <;> simpa [hw] using hne
    have hcount := Array.count_set (a := waits) (b := true) hlt
    rw [hget, ← h.asyncCount_eq] at hcount
    have hset : s.async.setIfInBounds component waits = s.async.set component waits hlt := by
      simp [Array.setIfInBounds, hlt]
    unfold Instance.setAsync
    rw [hset, hcount]
    cases waits <;> simp

namespace Engine

/-- A fresh instance has the places that its flow asks for. -/
theorem fits_freshInstance {d : Definition} {flow : Nat} {f : Flow}
    (hf : d.flows[flow]? = some f) (parent : Option (InstanceId × Nat)) (isAction : Bool)
    (h : Heap) : Fits d (freshInstance flow f parent isAction h).1 := by
  refine ⟨⟨f, hf, rfl, ?_, ?_, ?_⟩, ?_⟩
  · simp [freshInstance, Literal.length_materializeList]
  · simp [freshInstance]
  · simp [freshInstance]
  · simp [freshInstance, Array.count_replicate]

/-- A fresh instance has its place in the forest if its caller is live. -/
theorem rooted_freshInstance {forest : Forest} (flow : Nat) (f : Flow)
    {parent : Option (InstanceId × Nat)} {isAction : Bool}
    (hp : ∀ p, parent = some p → forest.contains p.1 = true) (ha : isAction = parent.isSome)
    (h : Heap) : forest.Rooted (freshInstance flow f parent isAction h).1 where
  no_children := rfl
  caller_live p hcall := by
    obtain ⟨c, hc⟩ := Instance.caller?_eq_some_iff.mp hcall
    exact Forest.contains_iff.mp (hp (p, c) hc)
  isAction_eq := ha

theorem contents_freshInstance (i : InstanceId) (flow : Nat) (f : Flow)
    (parent : Option (InstanceId × Nat)) (isAction : Bool) {h : Heap} (hh : h.Plain) :
    Contents i (freshInstance flow f parent isAction h).1
      ∧ (freshInstance flow f parent isAction h).2.Plain := by
  obtain ⟨hvs, hh'⟩ := Literal.materializeList_plain f.locals hh
  refine ⟨⟨fun v hv => ?_, fun l hl => ?_⟩, hh'⟩
  · rcases List.mem_append.mp (List.mem_toArray.mp hv) with hv | hv
    · rw [List.eq_of_mem_replicate hv]
      rfl
    · exact hvs v hv
  · cases (Array.mem_replicate.mp hl).2

/-! ## 2. Beginnings and ends -/

/-- The state after the beginning of an instance, before its components are pinged. -/
def begun (e : Engine) (flow : Nat) (f : Flow) (parent : Option (InstanceId × Nat))
    (isAction : Bool) : Engine :=
  let (s, heap) := freshInstance flow f parent isAction e.heap
  let (i, forest) := e.forest.insert s
  { e with heap, forest }.tellCreated i flow

/-- The handle that the next instance gets. -/
def nextId (e : Engine) (flow : Nat) (f : Flow) (parent : Option (InstanceId × Nat))
    (isAction : Bool) : InstanceId :=
  (e.forest.insert (freshInstance flow f parent isAction e.heap).1).1

theorem nextId_fresh {e : Engine} (hf : e.forest.FreeSound) (flow : Nat) (f : Flow)
    (parent : Option (InstanceId × Nat)) (isAction : Bool) :
    e.instance? (e.nextId flow f parent isAction) = none := Forest.get?_insert_fresh hf

/-- The state after the end of an instance that leaves this forest. -/
def buried (e : Engine) (i : InstanceId) (forest : Forest) : Engine :=
  { e.record (.destroyed i) with queue := e.queue.discard i, forest }

/-- The state after the end of an instance is reported once more. -/
def echoed (e : Engine) (i : InstanceId) : Engine :=
  { e.record (.destroyed i) with queue := e.queue.discard i }

/-- The live instance `k` was called by a component of `i`. -/
def WasCalled (e : Engine) (k i : InstanceId) (component : Nat) : Prop :=
  ∃ s, e.instance? k = some s ∧ s.parent = some (i, component)

/-- **One change.** -/
inductive Change (closed : Prop) (e : Engine) : Engine → Prop
  | touch {e' : Engine} (h : Touch closed e e') : Change closed e e'
  /-- A component begins to wait, for an instance that it called if for any. -/
  | await {child : Option InstanceId} {i : InstanceId} {component : Nat}
      (hc : ∀ k, child = some k → e.WasCalled k i component) :
      Change closed e (e.startAsync child i component)
  /-- The waiting of a component ends. -/
  | release (child : Option InstanceId) (i : InstanceId) (component : Nat) :
      Change closed e (e.clearAsync child i component)
  /-- An instance begins; if it is called, its caller is live. -/
  | begin {flow : Nat} {f : Flow} {parent : Option (InstanceId × Nat)} {isAction : Bool}
      (hf : e.definition.flows[flow]? = some f)
      (hp : ∀ p, parent = some p → e.forest.contains p.1 = true)
      (ha : isAction = parent.isSome) : Change closed e (e.begun flow f parent isAction)
  /-- An instance without children ends. -/
  | bury {i : InstanceId} {s : Instance} {forest : Forest}
      (hr : e.forest.remove i = some (s, forest)) (hs : s.children = []) :
      Change closed e (e.buried i forest)
  /-- The end of an instance is reported once more. -/
  | echo {i : InstanceId} (hn : e.instance? i = none) (hd : Event.destroyed i ∈ e.journal) :
      Change closed e (e.echoed i)

/-! ## 3. Changes keep the invariant -/

section

variable {closed : Prop} {e : Engine} (hi : Inv closed e)
include hi

theorem inv_record (event : Event) : Inv closed (e.record event) :=
  ⟨hi.sound, hi.fits, fun hc => (hi.plain hc).record event⟩

theorem inv_markAsync (i : InstanceId) (component : Nat) (waits : Bool) :
    Inv closed (e.markAsync i component waits) := by
  unfold markAsync
  split
  · exact hi
  next s hs =>
  split
  · next hmark =>
    refine inv_record ⟨?_, fun j t ht => ?_, fun hc => ?_⟩ _
    · exact hi.sound.modify i fun s => s.links_setAsync component waits
    · rw [instance?_modifyInstance] at ht
      split at ht
      · rw [hs] at ht
        rw [← Option.some.inj ht]
        exact (hi.fits i s hs).setAsync hmark.1 hmark.2
      · exact hi.fits j t ht
    · exact (hi.plain hc).modifyInstance fun _ _ hs => ⟨hs.values, hs.loops⟩
  · exact hi

omit hi in
/-- The instances after a beginning: the new one, and the old ones, each with its children. -/
theorem instance?_begun_cases (hs : e.forest.Sound) {flow : Nat} {f : Flow}
    {parent : Option (InstanceId × Nat)} {isAction : Bool}
    (hp : ∀ p, parent = some p → e.forest.contains p.1 = true) (ha : isAction = parent.isSome)
    {k : InstanceId} {s' : Instance}
    (hs' : (e.begun flow f parent isAction).instance? k = some s') :
    (k = e.nextId flow f parent isAction ∧ s' = (freshInstance flow f parent isAction e.heap).1)
    ∨ k ≠ e.nextId flow f parent isAction ∧ ∃ s l, e.instance? k = some s
      ∧ s' = { s with children := l } :=
  Forest.get?_insert_children hs.free (rooted_freshInstance flow f hp ha e.heap) hs'

theorem inv_begun {flow : Nat} {f : Flow} {parent : Option (InstanceId × Nat)} {isAction : Bool}
    (hf : e.definition.flows[flow]? = some f)
    (hp : ∀ p, parent = some p → e.forest.contains p.1 = true)
    (ha : isAction = parent.isSome) : Inv closed (e.begun flow f parent isAction) := by
  have hfits := fits_freshInstance hf parent isAction e.heap
  have hcontents (i : InstanceId) (hc : closed) :=
    contents_freshInstance i flow f parent isAction (hi.plain hc).store.heap
  have hrooted := rooted_freshInstance flow f hp ha e.heap
  refine ⟨hi.sound.insert hrooted, fun j t' ht' => ?_, fun hc => ⟨⟨?_, ?_, ?_⟩, ?_⟩⟩
  · rcases instance?_begun_cases hi.sound hp ha ht' with ⟨_, rfl⟩ | ⟨_, t, l, ht, rfl⟩
    · exact hfits
    · exact ⟨(hi.fits j t ht).flow, (hi.fits j t ht).asyncCount_eq⟩
  · exact (hi.plain hc).store.globals
  · exact (hcontents (e.nextId flow f parent isAction) hc).2
  · exact (hi.plain hc).store.host
  · intro j t' ht'
    rcases instance?_begun_cases hi.sound hp ha ht' with ⟨_, rfl⟩ | ⟨_, t, l, ht, rfl⟩
    · exact (hcontents j hc).1
    · have h := (hi.plain hc).contents j t ht
      exact ⟨h.values, h.loops⟩

theorem inv_buried {i : InstanceId} {s : Instance} {forest : Forest}
    (hr : e.forest.remove i = some (s, forest)) (hs : s.children = []) :
    Inv closed (e.buried i forest) := by
  refine ⟨hi.sound.remove hr hs, fun j t' ht' => ?_, fun hc => ⟨⟨?_, ?_, ?_⟩, ?_⟩⟩
  · obtain ⟨_, t, l, ht, rfl⟩ := Forest.get?_remove_children hr ht'
    exact ⟨(hi.fits j t ht).flow, (hi.fits j t ht).asyncCount_eq⟩
  · exact (hi.plain hc).store.globals
  · exact (hi.plain hc).store.heap
  · exact (hi.plain hc).store.host
  · intro j t' ht'
    obtain ⟨_, t, l, ht, rfl⟩ := Forest.get?_remove_children hr ht'
    have h := (hi.plain hc).contents j t ht
    exact ⟨h.values, h.loops⟩

/-- **Every change keeps the invariant.** -/
theorem Change.inv {e' : Engine} (h : Change closed e e') : Inv closed e' := by
  cases h with
  | touch h => exact h.inv hi
  | @await child i component _ => exact inv_markAsync (inv_record hi _) i component true
  | release child i component => exact inv_markAsync (inv_record hi _) i component false
  | begin hf hp ha => exact inv_begun hi hf hp ha
  | bury hr hs => exact inv_buried hi hr hs
  | echo _ _ => exact ⟨hi.sound, hi.fits, fun hc => ((hi.plain hc).record _).queue _⟩

end

/-! ## 4. Changes in a row -/

/-- Changes in a row. -/
abbrev Changes (closed : Prop) : Engine → Engine → Prop := Relation.ReflTransGen (Change closed)

/-- **What every change keeps holds along every row of changes.** -/
theorem Changes.preserves {closed : Prop} {P : Engine → Prop}
    (hP : ∀ e e', Inv closed e → Change closed e e' → P e → P e') {e e' : Engine}
    (hc : Changes closed e e') (hi : Inv closed e) (hp : P e) : P e' := by
  have h : Inv closed e' ∧ P e' := by
    induction hc with
    | refl => exact ⟨hi, hp⟩
    | tail _ h ih => exact ⟨h.inv ih.1, hP _ _ ih.1 h ih.2⟩
  exact h.2

theorem Changes.inv {closed : Prop} {e e' : Engine} (hc : Changes closed e e')
    (hi : Inv closed e) : Inv closed e' := by
  induction hc with
  | refl => exact hi
  | tail _ h ih => exact h.inv ih

theorem Touches.changes {closed : Prop} {e e' : Engine} (h : Touches closed e e') :
    Changes closed e e' := Relation.ReflTransGen.mono (fun _ _ => Change.touch) _ _ h

theorem Change.definition {closed : Prop} {e e' : Engine} (h : Change closed e e') :
    e'.definition = e.definition := by
  have hmark (e : Engine) (i : InstanceId) (component : Nat) (waits : Bool) :
      (e.markAsync i component waits).definition = e.definition := by
    unfold markAsync
    split
    · rfl
    · split <;> rfl
  cases h with
  | touch h => exact h.calm.definition
  | @await child i component _ => exact hmark _ i component true
  | release child i component => exact hmark _ i component false
  | begin _ _ _ => rfl
  | bury _ _ => rfl
  | echo _ _ => rfl

theorem Changes.definition {closed : Prop} {e e' : Engine} (hc : Changes closed e e') :
    e'.definition = e.definition := by
  induction hc with
  | refl => rfl
  | tail _ h ih => rw [h.definition, ih]

/-! ## 5. What was and what is reported -/

theorem journal_writeSlot (e : Engine) (i : InstanceId) (slot : Nat) (v : Value) :
    e.journal <:+ (e.writeSlot i slot v).journal := List.suffix_cons _ _

theorem journal_clearSlot (e : Engine) (i : InstanceId) (slot : Nat) :
    e.journal <:+ (e.clearSlot i slot).journal := by
  unfold clearSlot
  split
  · split
    · exact List.suffix_rfl
    · exact journal_writeSlot e i slot _
  · exact List.suffix_rfl

theorem journal_arrival (e : Engine) (i : InstanceId) (slot target : Nat) (held v : Value) :
    e.journal <:+ (e.arrival i slot target held v).journal := by
  refine List.IsSuffix.trans ?_ (List.suffix_cons _ _)
  unfold offerSlot
  split
  · exact List.suffix_rfl
  · exact journal_writeSlot e i slot v
  · exact journal_writeSlot (e.breakDown .endlessArray) i slot v

theorem journal_firing (e : Engine) (i : InstanceId) (c : Connection) (held v : Value)
    (queue : TaskQueue) : e.journal <:+ (e.firing i c held v queue).journal := by
  have harrival := journal_arrival e i c.targetInput.toNat c.targetComponent.toNat held v
  unfold firing
  dsimp only
  split
  · refine List.IsSuffix.trans ?_ (journal_clearSlot _ _ _)
    exact harrival.trans (List.suffix_cons _ _)
  · exact harrival.trans (List.suffix_cons _ _)

theorem journal_markAsync (e : Engine) (i : InstanceId) (component : Nat) (waits : Bool) :
    e.journal <:+ (e.markAsync i component waits).journal := by
  unfold markAsync
  split
  · exact List.suffix_rfl
  · split
    · exact List.suffix_cons _ _
    · exact List.suffix_rfl

theorem Touch.journal {closed : Prop} {e e' : Engine} (h : Touch closed e e') :
    e.journal <:+ e'.journal := by
  cases h with
  | aside _ _ _ hj _ => exact hj ▸ List.suffix_rfl
  | arrive _ _ _ => exact journal_arrival e _ _ _ _ _
  | fire _ _ _ _ _ _ => exact journal_firing e _ _ _ _ _
  | note _ _ | push _ _ | settle _ => exact List.suffix_cons _ _
  | write _ | progress _ | fail | drop _ _ => exact List.suffix_rfl

/-- **Nothing that happened is forgotten.** -/
theorem Change.journal {closed : Prop} {e e' : Engine} (h : Change closed e e') :
    e.journal <:+ e'.journal := by
  cases h with
  | touch h => exact h.journal
  | @await child i component _ =>
    exact (List.suffix_cons _ _).trans (journal_markAsync (e.record _) i component true)
  | release child i component =>
    exact (List.suffix_cons _ _).trans (journal_markAsync (e.record _) i component false)
  | begin _ _ _ | bury _ _ | echo _ _ => exact List.suffix_cons _ _

theorem Changes.journal {closed : Prop} {e e' : Engine} (hc : Changes closed e e') :
    e.journal <:+ e'.journal := by
  induction hc with
  | refl => exact List.suffix_rfl
  | tail _ h ih => exact ih.trans h.journal

theorem contains_markAsync (e : Engine) (i j : InstanceId) (component : Nat) (waits : Bool) :
    (e.markAsync i component waits).forest.contains j = e.forest.contains j := by
  unfold markAsync
  split
  · rfl
  · split
    · show ((e.forest.modify i _).get? j).isSome = _
      rw [Forest.get?_modify]
      split
      · next h =>
        rw [Option.isSome_map, h]
        rfl
      · rfl
    · rfl

/-- **Whoever goes is reported**, and that is news. -/
theorem Changes.reported_news {closed : Prop} {e e' : Engine} (hc : Changes closed e e')
    (hi : Inv closed e) {i : InstanceId} {s : Instance} (hs : e.instance? i = some s)
    (hn : e'.instance? i = none) :
    ∃ news, e'.journal = news ++ e.journal ∧ Event.destroyed i ∈ news := by
  have h : e'.forest.contains i = true
      ∨ ∃ news, e'.journal = news ++ e.journal ∧ Event.destroyed i ∈ news := by
    have hboth := hc.preserves (P := fun e' => e.journal <:+ e'.journal
      ∧ (e'.forest.contains i = true
        ∨ ∃ news, e'.journal = news ++ e.journal ∧ Event.destroyed i ∈ news))
      (fun e₁ e₂ hi h hp => ⟨hp.1.trans h.journal, ?_⟩) hi
      ⟨List.suffix_rfl, Or.inl (Forest.contains_iff.mpr ⟨s, hs⟩)⟩
    · exact hboth.2
    obtain ⟨hbefore, hlive⟩ := hp
    rcases hlive with hlive | ⟨news, hj, hreport⟩
    · cases h with
      | touch h => exact Or.inl (h.calm.contains_eq.trans hlive)
      | @await child j component _ =>
        exact Or.inl ((contains_markAsync _ j i component true).trans hlive)
      | release child j component =>
        exact Or.inl ((contains_markAsync _ j i component false).trans hlive)
      | @begin flow f parent isAction hf hp ha =>
        obtain ⟨s, hs⟩ := Forest.contains_iff.mp hlive
        have hrooted := rooted_freshInstance flow f hp ha e₁.heap
        obtain ⟨s', hs', _⟩ := Forest.get?_insert_of_some hi.sound.free hrooted hs
        exact Or.inl (Forest.contains_iff.mpr ⟨s', hs'⟩)
      | @bury j t forest hr hchildren =>
        by_cases hj : i = j
        · obtain ⟨news, hnews⟩ := hbefore
          refine Or.inr ⟨.destroyed j :: news, ?_, hj ▸ List.mem_cons_self⟩
          show .destroyed j :: e₁.journal = _
          rw [← hnews]
          rfl
        · obtain ⟨s, hs⟩ := Forest.contains_iff.mp hlive
          obtain ⟨s', hs', _⟩ := Forest.get?_remove_of_some hr hj hs
          exact Or.inl (Forest.contains_iff.mpr ⟨s', hs'⟩)
      | echo _ _ => exact Or.inl hlive
    · obtain ⟨later, hlater⟩ := h.journal
      refine Or.inr ⟨later ++ news, ?_, List.mem_append_right _ hreport⟩
      rw [← hlater, hj, List.append_assoc]
  rcases h with h | h
  · obtain ⟨t, ht⟩ := Forest.contains_iff.mp h
    rw [show e'.forest.get? i = none from hn] at ht
    cases ht
  · exact h

theorem Changes.reported {closed : Prop} {e e' : Engine} (hc : Changes closed e e')
    (hi : Inv closed e) {i : InstanceId} {s : Instance} (hs : e.instance? i = some s)
    (hn : e'.instance? i = none) : Event.destroyed i ∈ e'.journal := by
  obtain ⟨news, hj, hreport⟩ := hc.reported_news hi hs hn
  rw [hj]
  exact List.mem_append_left _ hreport

end Engine

end InstrumentFlow
