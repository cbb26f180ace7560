import InstrumentFlow.Proofs.Queue.Live
import InstrumentFlow.Proofs.Suspension.Order

/-!
# Components that are left alone

Most of what happens in a run is the business of other components. What is known of a component by
its own past stays true as long as it is left alone.

* `Event.concerns` -- whether an event is the business of a component;
* `Adds` -- what was added to the journal;
* `Unmoved` -- a component was left alone;
* `Stroke.unmoved`, `Pace.unmoved` -- who may not get or lose progress is left alone;
* `Changes.lived`, `Paces.unmoved` -- the same along a way on which nobody began in its place;
* `Fresh`, `Pace.fresh` -- how a component begins.
-/

namespace InstrumentFlow

/-! ## 1. Events of a component -/

namespace Event

/-- Whether an event is the business of a component: the beginning of its instance, the beginning or
    the end of a step, or an error that comes to it. -/
def concerns (i : InstanceId) (c : Nat) : Event → Bool
  | created j _ => j = i
  | stepped t => t.instanceId = i ∧ t.component = c
  | ended j k _ => j = i ∧ k = c
  | routed _ _ j k _ => j = i ∧ k = c
  | _ => false

/-- Whether an event is the business of some component, or tells of a value that is sent. -/
def isBusiness : Event → Bool
  | created _ _ | stepped _ | ended _ _ _ | routed _ _ _ _ _ | sent _ _ _ _ => true
  | _ => false

theorem isBusiness_of_concerns {i : InstanceId} {c : Nat} {event : Event}
    (h : event.concerns i c = true) : event.isBusiness = true := by
  cases event with
  | created _ _ | stepped _ | ended _ _ _ | routed _ _ _ _ _ => rfl
  | _ => cases h

end Event

/-- The instance goes on as it was, as far as the component `c` can tell, or it has failed. -/
structure Instance.Keeps (c : Nat) (s s' : Instance) : Prop where
  flow : s'.flow = s.flow
  progress : s'.failed = true ∨ s'.progress? c = s.progress? c
  failed : s.failed = true → s'.failed = true

namespace Instance.Keeps

theorem refl (c : Nat) (s : Instance) : s.Keeps c s := ⟨rfl, Or.inr rfl, id⟩

theorem trans {c : Nat} {s s' s'' : Instance} (h : s.Keeps c s') (h' : s'.Keeps c s'') :
    s.Keeps c s'' where
  flow := h'.flow.trans h.flow
  progress := by
    rcases h'.progress with hf | hp'
    · exact Or.inl hf
    · rcases h.progress with hf | hp
      · exact Or.inl (h'.failed hf)
      · exact Or.inr (hp'.trans hp)
  failed hf := h'.failed (h.failed hf)

end Instance.Keeps

namespace Engine

/-! ## 2. What is added to the journal -/

/-- The journal was added to, and no event that was added is barred. -/
def Adds (bar : Event → Bool) (e e' : Engine) : Prop :=
  ∃ news, e'.journal = news ++ e.journal ∧ ∀ event ∈ news, bar event = false

namespace Adds

variable {bar : Event → Bool} {e e' e'' : Engine}

theorem silent (hj : e'.journal = e.journal) : Adds bar e e' := ⟨[], hj, fun _ h => nomatch h⟩

theorem refl (e : Engine) : Adds bar e e := silent rfl

theorem trans (h : Adds bar e e') (h' : Adds bar e' e'') : Adds bar e e'' := by
  obtain ⟨news, hj, hn⟩ := h
  obtain ⟨news', hj', hn'⟩ := h'
  refine ⟨news' ++ news, by rw [hj', hj, List.append_assoc], fun event he => ?_⟩
  rcases List.mem_append.mp he with he | he
  · exact hn' event he
  · exact hn event he

theorem record (e : Engine) {event : Event} (hb : bar event = false) : Adds bar e (e.record event) :=
  ⟨[event], rfl, fun _ h => List.mem_singleton.mp h ▸ hb⟩

theorem tail (h : Adds bar e e') {event : Event} (hb : bar event = false) :
    Adds bar e (e'.record event) := h.trans (record e' hb)

theorem mono {bar' : Event → Bool} (h : Adds bar e e')
    (hb : ∀ event, bar' event = true → bar event = true) : Adds bar' e e' := by
  obtain ⟨news, hj, hn⟩ := h
  refine ⟨news, hj, fun event he => Bool.eq_false_iff.mpr fun hbar => ?_⟩
  exact Bool.false_ne_true ((hn event he).symm.trans (hb event hbar))

theorem mem (h : Adds bar e e') {event : Event} (he : event ∈ e.journal) : event ∈ e'.journal := by
  obtain ⟨news, hj, _⟩ := h
  rw [hj]
  exact List.mem_append_right news he

/-- What was not added on the whole way was not added on a part of it. -/
theorem cut (h : Adds bar e e'') (hbefore : e.journal <:+ e'.journal)
    (hafter : e'.journal <:+ e''.journal) : Adds bar e e' ∧ Adds bar e' e'' := by
  obtain ⟨news, hj, hn⟩ := h
  obtain ⟨early, hearly⟩ := hbefore
  obtain ⟨late, hlate⟩ := hafter
  have hsplit : news = late ++ early := by
    have hboth : news ++ e.journal = (late ++ early) ++ e.journal := by
      rw [← hj, ← hlate, ← hearly, List.append_assoc]
    exact List.append_cancel_right hboth
  refine ⟨⟨early, hearly.symm, fun event he => hn event ?_⟩,
    ⟨late, hlate.symm, fun event he => hn event ?_⟩⟩
  · exact hsplit ▸ List.mem_append_right late he
  · exact hsplit ▸ List.mem_append_left early he

/-- What is barred was not added if there is no more of it. -/
theorem of_countP (hj : e.journal <:+ e'.journal)
    (hc : e'.journal.countP bar = e.journal.countP bar) : Adds bar e e' := by
  obtain ⟨news, hnews⟩ := hj
  rw [← hnews, List.countP_append] at hc
  refine ⟨news, hnews.symm, fun event he => Bool.eq_false_iff.mpr fun hbar => ?_⟩
  have hpos := List.countP_pos_iff.mpr ⟨event, he, hbar⟩
  omega

/-- What was told was not barred. -/
theorem told (h : Adds bar e e') {event : Event} (hj : e'.journal = event :: e.journal) :
    bar event = false := by
  obtain ⟨news, hnews, hn⟩ := h
  have hone : [event] ++ e.journal = news ++ e.journal := hj.symm.trans hnews
  exact hn event (List.append_cancel_right hone ▸ List.mem_singleton_self event)

/-- How the last step of a component ended is known from what is its business. -/
theorem lastEnd? {i : InstanceId} {c : Nat} (h : Adds (Event.concerns i c) e e') :
    e'.lastEnd? i c = e.lastEnd? i c := by
  obtain ⟨news, hj, hn⟩ := h
  unfold Engine.lastEnd?
  rw [hj, List.findSome?_append, List.findSome?_eq_none_iff.mpr, Option.none_or]
  intro event he
  have hconcerns := hn event he
  cases event with
  | ended j k midway => exact if_neg (of_decide_eq_false hconcerns)
  | _ => rfl

end Adds

/-- Nothing was added that is anybody's business. -/
abbrev Idles : Engine → Engine → Prop := Adds Event.isBusiness

namespace Idles

theorem failFatally (e : Engine) (i : InstanceId) (component : Nat) (message : String) :
    Idles e (e.failFatally i component message) :=
  ⟨[.stopAsked, .failed i component message], rfl, by simp [Event.isBusiness]⟩

theorem refused (e : Engine) (t : Task) (i : InstanceId) (component : Nat) (message : String) :
    Idles e ((e.record (.refused t)).failFatally i component message) :=
  (Adds.record e rfl).trans (failFatally _ i component message)

theorem clearSlot (e : Engine) (i : InstanceId) (slot : Nat) : Idles e (e.clearSlot i slot) := by
  unfold Engine.clearSlot
  split
  · split
    · exact .refl e
    · exact .record e rfl
  · exact .refl e

theorem arrival (e : Engine) (i : InstanceId) (slot target : Nat) (held v : Value) :
    Idles e (e.arrival i slot target held v) := by
  have hoffer : Idles e (e.offerSlot i slot held v) := by
    unfold offerSlot
    split
    · exact .refl e
    · exact .record e rfl
    · exact .record e rfl
  exact hoffer.tail rfl

theorem ping (e : Engine) (i : InstanceId) (component : Nat) :
    Idles e (e.ping i component).2 := by
  rcases ping_cases e i component with ⟨queue, _, _, he⟩ | he | ⟨_, he⟩
  · rw [he]
    exact .record e rfl
  · rw [he]
    exact .refl e
  · rw [he]
    exact refused e _ i component _

theorem releaseProgress (e : Engine) (i : InstanceId) (component : Nat) :
    Idles e (e.releaseProgress i component) := by
  unfold Engine.releaseProgress
  split
  · exact .record e rfl
  · exact .refl e

theorem stripped (e : Engine) (i : InstanceId) : Idles e (e.stripped i) := by
  unfold Engine.stripped
  generalize ((e.instance? i).map Instance.openComponents).getD [] = cs
  induction cs generalizing e with
  | nil => exact .refl e
  | cons c cs ih => exact (releaseProgress e i c).trans (ih _)

theorem mark (e : Engine) (i : InstanceId) (component : Nat) (waits : Bool) {event : Event}
    (hb : event.isBusiness = false) : Idles e ((e.record event).markAsync i component waits) := by
  have hrecord : Idles e (e.record event) := .record e hb
  refine hrecord.trans ?_
  unfold markAsync
  split
  · exact .refl _
  · split
    · exact .record _ rfl
    · exact .refl _

/-- Nobody begins in a destruction. -/
theorem destroys {job : Job} {e e' : Engine} (h : Destroys job e e') : Idles e e' := by
  have hburied (e : Engine) (i : InstanceId) (forest : Forest) :
      Idles e ((e.stripped i).buried i forest) := (stripped e i).tail rfl
  induction h with
  | gone _ | nil | unheard _ => exact .refl _
  | root _ _ _ _ ihk => exact ihk.trans (hburied _ _ _)
  | called _ _ _ _ _ ihk ihw => exact (ihk.trans (hburied _ _ _)).trans ihw
  | again _ _ _ ihk => exact ihk.tail rfl
  | cons _ _ ihk ihks => exact ihk.trans ihks
  | heard _ _ => exact mark _ _ _ false rfl
  | falls _ _ _ ih => exact (mark _ _ _ false rfl).trans ih

end Idles

/-- **Strokes are the business of those who may be handed an error.** -/
theorem Stroke.adds {closed : Prop} {own : Leeway} {e e' : Engine} (h : Stroke closed own e e')
    {i : InstanceId} {c : Nat} (hown : ∀ p, ¬ own i c p) : Adds (Event.concerns i c) e e' := by
  have hidles {e e' : Engine} (h : Idles e e') : Adds (Event.concerns i c) e e' :=
    h.mono fun _ => Event.isBusiness_of_concerns
  cases h with
  | @note event hl _ hc =>
    refine .record e ?_
    cases event with
    | created _ _ => cases hl
    | stepped _ | ended _ _ _ | routed _ _ _ _ _ => cases hc
    | _ => rfl
  | @route catcher catchComponent message ho _ _ =>
    refine .record e (decide_eq_false ?_)
    rintro ⟨rfl, rfl⟩
    exact hown _ ho
  | aside he _ _ => exact .silent (by rw [he])
  | global _ | element _ | write _ | push _ _ _ => exact .record e rfl
  | request _ _ | progress _ _ _ | fail _ => exact .silent rfl
  | fatal i component message => exact hidles (.failFatally e i component message)
  | @refuse t _ i component => exact hidles (.refused e t i component _)
  | arrive _ _ _ => exact hidles (.arrival e _ _ _ _ _)
  | @fire j k held v s queue _ _ _ _ _ _ =>
    have harrival := Idles.arrival e j k.targetInput.toNat k.targetComponent.toNat held v
    have hpush : Idles e ({ e.arrival j k.targetInput.toNat k.targetComponent.toNat held v with
        queue }.record (.pushed ⟨j, k.targetComponent.toNat, false⟩)) :=
      harrival.trans ⟨[_], rfl, by simp [Event.isBusiness]⟩
    refine hidles ?_
    unfold firing
    dsimp only
    split
    · exact hpush.trans (Idles.clearSlot _ _ _)
    · exact hpush

theorem queue_releaseProgress (e : Engine) (i : InstanceId) (component : Nat) :
    (e.releaseProgress i component).queue = e.queue := by
  unfold releaseProgress
  split <;> rfl

/-! ## 3. Failed instances -/

/-- The instance is there and has failed. -/
def HasFailed (e : Engine) (i : InstanceId) : Prop :=
  ∃ s, e.instance? i = some s ∧ s.failed = true

instance (e : Engine) (i : InstanceId) : Decidable (e.HasFailed i) :=
  decidable_of_iff ((e.instance? i).any (·.failed) = true) (Option.any_eq_true _ _)

theorem hasFailed_failFatally {e : Engine} {i : InstanceId} (hl : e.instance? i ≠ none)
    (component : Nat) (message : String) : (e.failFatally i component message).HasFailed i := by
  obtain ⟨s, hs⟩ := Option.ne_none_iff_exists'.mp hl
  refine ⟨{ s with failed := true }, (Forest.get?_modify _ _ _ _).trans ?_, rfl⟩
  rw [if_pos rfl, show e.forest.get? i = some s from hs]
  rfl

/-- Instances that have failed stay so. -/
def StaysFailed (e e' : Engine) : Prop := ∀ i, e.HasFailed i → e'.HasFailed i

namespace StaysFailed

theorem of_forest {e e' : Engine} (hf : e'.forest = e.forest) : StaysFailed e e' := by
  intro i h
  unfold HasFailed instance? at h ⊢
  rwa [hf]

theorem trans {e e' e'' : Engine} (h : StaysFailed e e') (h' : StaysFailed e' e'') :
    StaysFailed e e'' := fun i hf => h' i (h i hf)

theorem modifyInstance (e : Engine) (j : InstanceId) {change : Instance → Instance}
    (hc : ∀ s, s.failed = true → (change s).failed = true) :
    StaysFailed e (e.modifyInstance j change) := by
  rintro i ⟨s, hs, hf⟩
  unfold HasFailed
  rw [instance?_modifyInstance]
  by_cases hij : i = j
  · subst hij
    rw [if_pos rfl, hs]
    exact ⟨change s, rfl, hc s hf⟩
  · rw [if_neg hij]
    exact ⟨s, hs, hf⟩

theorem writeSlot (e : Engine) (j : InstanceId) (slot : Nat) (v : Value) :
    StaysFailed e (e.writeSlot j slot v) := by
  have hset : StaysFailed e (e.modifyInstance j (·.setValue slot v)) :=
    modifyInstance e j fun _ h => h
  exact hset.trans (.of_forest rfl)

theorem setProgress (e : Engine) (j : InstanceId) (component : Nat) (p : Option Progress) :
    StaysFailed e (e.setProgress j component p) := modifyInstance e j fun _ h => h

theorem releaseProgress (e : Engine) (j : InstanceId) (component : Nat) :
    StaysFailed e (e.releaseProgress j component) := by
  unfold Engine.releaseProgress
  split
  · exact (setProgress e j component none).trans (.of_forest rfl)
  · exact .of_forest rfl

theorem clearSlot (e : Engine) (j : InstanceId) (slot : Nat) :
    StaysFailed e (e.clearSlot j slot) := by
  unfold Engine.clearSlot
  split
  · split
    · exact .of_forest rfl
    · exact writeSlot e j slot _
  · exact .of_forest rfl

theorem failFatally (e : Engine) (j : InstanceId) (component : Nat) (message : String) :
    StaysFailed e (e.failFatally j component message) := by
  have hfail : StaysFailed e (e.modifyInstance j fun s => { s with failed := true }) :=
    modifyInstance e j fun _ _ => rfl
  exact hfail.trans (.of_forest rfl)

theorem arrival (e : Engine) (j : InstanceId) (slot target : Nat) (held v : Value) :
    StaysFailed e (e.arrival j slot target held v) := by
  unfold Engine.arrival offerSlot
  split
  · exact .of_forest rfl
  · exact (writeSlot e j slot v).trans (.of_forest rfl)
  · exact (writeSlot (e.breakDown .endlessArray) j slot v).trans (.of_forest rfl)

end StaysFailed

theorem Stroke.staysFailed {closed : Prop} {own : Leeway} {e e' : Engine}
    (h : Stroke closed own e e') : StaysFailed e e' := by
  cases h with
  | aside he _ _ => exact .of_forest (by rw [he])
  | write _ => exact .writeSlot e _ _ _
  | progress _ _ _ => exact .setProgress e _ _ _
  | fail _ => exact .modifyInstance e _ fun _ _ => rfl
  | fatal i component message => exact .failFatally e i component message
  | @refuse t _ i component => exact .failFatally (e.record (.refused t)) i component _
  | arrive _ _ _ => exact .arrival e _ _ _ _ _
  | @fire j k held v s queue _ _ _ _ _ _ =>
    have harrival := StaysFailed.arrival e j k.targetInput.toNat k.targetComponent.toNat held v
    have hpush : StaysFailed e ({ e.arrival j k.targetInput.toNat k.targetComponent.toNat held v with
        queue }.record (.pushed ⟨j, k.targetComponent.toNat, false⟩)) :=
      harrival.trans (.of_forest rfl)
    unfold firing
    dsimp only
    split
    · exact hpush.trans (.clearSlot _ _ _)
    · exact hpush
  | note _ _ _ | global _ | element _ | request _ _ | route _ _ _ | push _ _ _ =>
    exact .of_forest rfl

/-! ## 4. Components that are left alone -/

/-- No task comes in a destruction. -/
theorem Destroys.mem_queue {job : Job} {e e' : Engine} (h : Destroys job e e') {t : Task}
    (ht : t ∈ e'.queue.tasks) : t ∈ e.queue.tasks := by
  have hburied {e₁ : Engine} {i : InstanceId} {forest : Forest}
      (ht : t ∈ ((e₁.stripped i).buried i forest).queue.tasks) : t ∈ e₁.queue.tasks := by
    rw [← (progressOnly_stripped e₁ i).queue_eq]
    exact (List.mem_filter.mp ht).1
  have hclear {e₁ : Engine} {k p : InstanceId} {c : Nat}
      (ht : t ∈ (e₁.clearAsync (some k) p c).queue.tasks) : t ∈ e₁.queue.tasks := by
    unfold clearAsync at ht
    rwa [queue_markAsync] at ht
  induction h with
  | gone _ | nil | unheard _ => exact ht
  | root _ _ _ _ ihk => exact ihk (hburied ht)
  | called _ _ _ _ _ ihk ihw => exact ihk (hburied (ihw ht))
  | again _ _ _ ihk => exact ihk (List.mem_filter.mp ht).1
  | cons _ _ ihk ihks => exact ihk (ihks ht)
  | heard _ _ => exact hclear ht
  | falls _ _ _ ih => exact hclear (ih ht)

/-- **A component was left alone.** Its instance is still there, nothing happened that is its
    business, and no task came by which it would go on. Unless the instance has failed, its progress
    is the same, and its tasks are still queued. -/
structure Unmoved (i : InstanceId) (c : Nat) (e e' : Engine) : Prop where
  definition : e'.definition = e.definition
  kept : ∃ s s', e.instance? i = some s ∧ e'.instance? i = some s' ∧ s.Keeps c s'
  adds : Adds (Event.concerns i c) e e'
  queued : ∀ b, ⟨i, c, b⟩ ∈ e.queue.tasks → ⟨i, c, b⟩ ∈ e'.queue.tasks ∨ e'.HasFailed i
  resumes : ⟨i, c, true⟩ ∈ e'.queue.tasks → ⟨i, c, true⟩ ∈ e.queue.tasks

namespace Unmoved

variable {i : InstanceId} {c : Nat} {e e' e'' : Engine}

theorem staysFailed (h : Unmoved i c e e') (hf : e.HasFailed i) : e'.HasFailed i := by
  obtain ⟨s, s', hs, hs', hk⟩ := h.kept
  obtain ⟨s₁, hs₁, hf⟩ := hf
  obtain rfl : s = s₁ := Option.some.inj (hs.symm.trans hs₁)
  exact ⟨s', hs', hk.failed hf⟩

theorem trans (h : Unmoved i c e e') (h' : Unmoved i c e' e'') : Unmoved i c e e'' where
  definition := h'.definition.trans h.definition
  kept := by
    obtain ⟨s, s₁, hs, hs₁, hk⟩ := h.kept
    obtain ⟨s₁', s', hs₁', hs', hk'⟩ := h'.kept
    obtain rfl : s₁ = s₁' := Option.some.inj (hs₁.symm.trans hs₁')
    exact ⟨s, s', hs, hs', hk.trans hk'⟩
  adds := h.adds.trans h'.adds
  queued b hb := by
    rcases h.queued b hb with hb | hf
    · exact h'.queued b hb
    · exact Or.inr (h'.staysFailed hf)
  resumes hb := h.resumes (h'.resumes hb)

/-- Instances and queue are as before. -/
theorem of_eq (hl : e.instance? i ≠ none) (hd : e'.definition = e.definition)
    (hf : e'.forest = e.forest) (hq : e'.queue.tasks = e.queue.tasks)
    (ha : Adds (Event.concerns i c) e e') : Unmoved i c e e' := by
  obtain ⟨s, hs⟩ := Option.ne_none_iff_exists'.mp hl
  refine ⟨hd, ⟨s, s, hs, ?_, .refl c s⟩, ha, fun b hb => ?_, fun hb => ?_⟩
  · unfold instance? at hs ⊢
    rwa [hf]
  · exact Or.inl (hq ▸ hb)
  · rwa [hq] at hb

theorem refl (hl : e.instance? i ≠ none) : Unmoved i c e e := of_eq hl rfl rfl rfl (.refl e)

/-- An instance that has failed leaves its components alone. -/
theorem of_failed {s s' : Instance} (hd : e'.definition = e.definition)
    (hs : e.instance? i = some s) (hs' : e'.instance? i = some s') (hflow : s'.flow = s.flow)
    (hf : s'.failed = true) (ha : Adds (Event.concerns i c) e e')
    (hr : ⟨i, c, true⟩ ∈ e'.queue.tasks → ⟨i, c, true⟩ ∈ e.queue.tasks) : Unmoved i c e e' :=
  ⟨hd, ⟨s, s', hs, hs', hflow, Or.inl hf, fun _ => hf⟩, ha, fun _ _ => Or.inr ⟨s', hs', hf⟩, hr⟩

theorem live (h : Unmoved i c e e') : e.instance? i ≠ none := by
  obtain ⟨s, _, hs, _⟩ := h.kept
  rw [hs]
  exact Option.some_ne_none s

theorem live' (h : Unmoved i c e e') : e'.instance? i ≠ none := by
  obtain ⟨_, s', _, hs', _⟩ := h.kept
  rw [hs']
  exact Option.some_ne_none s'

theorem kindOf? (h : Unmoved i c e e') : e'.kindOf? i c = e.kindOf? i c := by
  obtain ⟨s, s', hs, hs', hk⟩ := h.kept
  unfold Engine.kindOf? componentOf?
  rw [hs, hs', h.definition, Option.bind_some, Option.bind_some, hk.flow]

theorem progress? (h : Unmoved i c e e') :
    e'.HasFailed i ∨ e'.progress? i c = e.progress? i c := by
  obtain ⟨s, s', hs, hs', hk⟩ := h.kept
  rcases hk.progress with hf | hp
  · exact Or.inl ⟨s', hs', hf⟩
  · refine Or.inr ?_
    unfold Engine.progress?
    rw [hs, hs', Option.bind_some, Option.bind_some, hp]

/-- Marks are nobody's progress. -/
theorem mark (hl : e.instance? i ≠ none) (j : InstanceId) (component : Nat) (waits : Bool)
    {event : Event} (hb : event.isBusiness = false) :
    Unmoved i c e ((e.record event).markAsync j component waits) := by
  have hframe := (SameFrame.record e event).trans
    (SameFrame.markAsync (e.record event) j component waits)
  obtain ⟨s, hs⟩ := Option.ne_none_iff_exists'.mp hl
  have hget := instance?_markAsync (e.record event) j i component waits
  refine ⟨hframe.definition, ?_, (Idles.mark e j component waits hb).mono
    fun _ => Event.isBusiness_of_concerns, fun b hb => Or.inl ?_, fun hb => ?_⟩
  · rw [hget]
    by_cases hij : i = j
    · subst hij
      have hmark := s.mark_eq component waits
      refine ⟨s, s.mark component waits, hs, ?_, ?_⟩
      · rw [if_pos rfl, show (e.record event).instance? i = some s from hs]
        rfl
      · rw [hmark]
        exact ⟨rfl, Or.inr rfl, id⟩
    · rw [if_neg hij]
      exact ⟨s, s, hs, hs, .refl c s⟩
  · rw [queue_markAsync]
    exact hb
  · rwa [queue_markAsync] at hb

/-- Who is left by a destruction was left alone. -/
theorem destroys {job : Job} (h : Destroys job e e') (hl : e'.instance? i ≠ none) :
    Unmoved i c e e' := by
  obtain ⟨s', hs'⟩ := Option.ne_none_iff_exists'.mp hl
  obtain ⟨s, hs, he⟩ := h.wanes.survivors i s' hs'
  refine ⟨(SameFrame.destroys h).definition, ⟨s, s', hs, hs', ?_⟩,
    (Idles.destroys h).mono fun _ => Event.isBusiness_of_concerns,
    fun b hb => Or.inl (h.queued hb hl), fun hb => ?_⟩
  · refine ⟨congrArg (·.flow) he.rest, Or.inr ?_, fun hf => ?_⟩
    · unfold Instance.progress?
      rw [he.progress_eq]
    · exact (congrArg (·.failed) he.rest).trans hf
  · exact h.mem_queue hb

end Unmoved

section

variable {closed : Prop} {own : Leeway} {i : InstanceId} {c : Nat} {e e' : Engine}

/-- No task comes in strokes by which a component would go on. -/
theorem Stroke.resumes (h : Stroke closed own e e') {t : Task} (hc : t.continuous = true)
    (ht : t ∈ e'.queue.tasks) : t ∈ e.queue.tasks := by
  rcases h.queue_cases with hq | ⟨t', _, hf, hq⟩
  · rwa [hq] at ht
  · rw [hq] at ht
    rcases List.mem_append.mp ht with ht | ht
    · exact ht
    · rw [← List.mem_singleton.mp ht, hc] at hf
      cases hf

theorem Strokes.resumes (h : Strokes closed own e e') {t : Task} (hc : t.continuous = true)
    (ht : t ∈ e'.queue.tasks) : t ∈ e.queue.tasks := by
  induction h with
  | refl => exact ht
  | tail _ h ih => exact ih (h.resumes hc ht)

/-- **Whose progress may not change** in a stroke is left alone. -/
theorem Stroke.unmoved (h : Stroke closed own e e') (hown : ∀ p, ¬ own i c p)
    (hl : e.instance? i ≠ none) : Unmoved i c e e' := by
  obtain ⟨s, hs⟩ := Option.ne_none_iff_exists'.mp hl
  obtain ⟨s', hs', he⟩ := h.calm.forth hs
  have hprogress : e'.progress? i c = e.progress? i c :=
    Strokes.progress?_same (.single h) hown
  unfold Engine.progress? at hprogress
  rw [hs, hs', Option.bind_some, Option.bind_some] at hprogress
  refine ⟨h.calm.definition,
    ⟨s, s', hs, hs', Instance.flow_of_frame he, Or.inr hprogress, fun hf => ?_⟩,
    h.adds hown, fun b hb => Or.inl ?_, h.resumes rfl⟩
  · obtain ⟨s'', hs'', hf'⟩ := h.staysFailed i ⟨s, hs, hf⟩
    rwa [Option.some.inj (hs'.symm.trans hs'')]
  · rcases h.queue_cases with hq | ⟨t, _, _, hq⟩
    · rwa [hq]
    · rw [hq]
      exact List.mem_append_left _ hb

theorem Strokes.unmoved (h : Strokes closed own e e') (hown : ∀ p, ¬ own i c p)
    (hl : e.instance? i ≠ none) : Unmoved i c e e' := by
  induction h with
  | refl => exact .refl hl
  | tail _ h ih => exact ih.trans (h.unmoved hown ih.live')

theorem unmoved_begun (hi : Inv closed e) {flow : Nat} {f : Flow}
    {parent : Option (InstanceId × Nat)} {isAction : Bool}
    (hp : ∀ p, parent = some p → e.forest.contains p.1 = true) (ha : isAction = parent.isSome)
    (hl : e.instance? i ≠ none) : Unmoved i c e (e.begun flow f parent isAction) := by
  obtain ⟨s, hs⟩ := Option.ne_none_iff_exists'.mp hl
  have hne : e.nextId flow f parent isAction ≠ i := by
    rintro rfl
    exact hl (nextId_fresh hi.sound.free flow f parent isAction)
  have hget := Forest.get?_insert hi.sound.free (rooted_freshInstance flow f hp ha e.heap) i
  rw [if_neg (show i ≠ (e.forest.insert (freshInstance flow f parent isAction e.heap).1).1 from
    hne.symm), show e.forest.get? i = some s from hs, Option.map_some] at hget
  refine ⟨rfl, ⟨s, _, hs, hget, ?_⟩, ?_, fun _ => Or.inl, id⟩
  · split <;> exact ⟨rfl, Or.inr rfl, id⟩
  · exact ⟨[@Event.created (e.nextId flow f parent isAction) flow _], rfl, fun event he => by
      rw [List.mem_singleton.mp he]
      exact decide_eq_false hne⟩

/-- **Whose progress may not change** in a pace is left alone, if its instance is left. -/
theorem Pace.unmoved (h : Pace closed own e e') (hi : Inv closed e) (hown : ∀ p, ¬ own i c p)
    (hl : e.instance? i ≠ none) (hl' : e'.instance? i ≠ none) : Unmoved i c e e' := by
  have harisen {flow : Nat} {f : Flow} {parent : Option (InstanceId × Nat)} {isAction : Bool}
      (hp : ∀ p, parent = some p → e.forest.contains p.1 = true)
      (ha : isAction = parent.isSome) : Unmoved i c e (e.arisen flow f parent isAction) := by
    have hbegun : Unmoved i c e (e.begun flow f parent isAction) := unmoved_begun hi hp ha hl
    have hpings : Strokes closed untouched (e.begun flow f parent isAction)
        (e.arisen flow f parent isAction) := strokes_arisen flow f parent isAction
    exact hbegun.trans (hpings.unmoved (fun _ => id) hbegun.live')
  cases h with
  | stroke h => exact h.unmoved hown hl
  | await j component => exact .mark hl j component true rfl
  | release child j component => exact .mark hl j component false rfl
  | begin _ _ => exact harisen (fun _ h => nomatch h) rfl
  | @call flow f j component _ hcaller =>
    have hcalled : Unmoved i c e (e.arisen flow f (some (j, component)) true) := by
      refine harisen ?_ rfl
      rintro p ⟨⟩
      exact hcaller
    exact hcalled.trans (.mark hcalled.live' j component true rfl)
  | destroy h => exact .destroys h hl'
  | settle _ => exact .of_eq hl rfl rfl rfl (.record e rfl)
  | stop => exact .of_eq hl rfl rfl rfl (.silent rfl)

/-- Who is there after a change, and did not begin with it, was there before. -/
theorem Change.lived (h : Change closed e e') (hi : Inv closed e)
    (ha : Adds (Event.concerns i c) e e') (hl : e'.instance? i ≠ none) : e.instance? i ≠ none := by
  intro hn
  cases h with
  | touch h => exact hl (h.calm.none_iff.mpr hn)
  | await _ | release _ _ _ =>
    first | rw [instance?_startAsync] at hl | rw [instance?_clearAsync] at hl
    split at hl
    · next hj =>
      rw [← hj, hn] at hl
      exact hl rfl
    · exact hl hn
  | @begin flow f parent isAction _ hp hc =>
    obtain ⟨s, hs⟩ := Option.ne_none_iff_exists'.mp hl
    rcases instance?_begun_cases hi.sound hp hc hs with ⟨rfl, _⟩ | ⟨_, t, _, ht, _⟩
    · exact of_decide_eq_false (ha.told rfl) rfl
    · exact nomatch hn.symm.trans ht
  | @bury j s forest hr _ =>
    have hnone : forest.get? i = none := by
      rw [Forest.get?_remove hr, show e.forest.get? i = none from hn]
      split <;> rfl
    exact hl hnone
  | echo _ _ => exact hl hn

/-- So was who is there after changes. -/
theorem Changes.lived (h : Changes closed e e') (hi : Inv closed e)
    (ha : Adds (Event.concerns i c) e e') (hl : e'.instance? i ≠ none) :
    e.instance? i ≠ none := by
  induction h with
  | refl => exact hl
  | tail hs h ih =>
    obtain ⟨hbefore, hafter⟩ := ha.cut (Changes.journal hs) h.journal
    exact ih hbefore (h.lived (Changes.inv hs hi) hafter hl)

/-- **Whose progress may not change** in paces is left alone, if its instance is left and did not
    begin anew. -/
theorem Paces.unmoved (h : Paces closed own e e') (hi : Inv closed e) (hown : ∀ p, ¬ own i c p)
    (ha : Adds (Event.concerns i c) e e') (hl : e'.instance? i ≠ none) : Unmoved i c e e' := by
  induction h with
  | refl => exact .refl hl
  | tail hs h ih =>
    have hi₁ := Paces.inv hs hi
    have hlast := (h.course hi₁).changes hi₁
    obtain ⟨hbefore, hafter⟩ := ha.cut ((Paces.course hs hi).changes hi).journal hlast.journal
    have hl₁ := hlast.lived hi₁ hafter hl
    exact (ih hbefore hl₁).trans (h.unmoved hi₁ hown hl₁ hl)

/-! ## 5. Beginnings -/

/-- **An instance has just begun**: it has not failed, no component of it has progress, and no task
    is queued for it. -/
structure Fresh (i : InstanceId) (e : Engine) : Prop where
  instance? : ∃ s, e.instance? i = some s ∧ s.failed = false ∧ ∀ c, s.progress? c = none
  journal : ∃ flow found earlier, e.journal = @Event.created i flow found :: earlier
  queue : ∀ t ∈ e.queue.tasks, t.instanceId ≠ i

theorem fresh_begun (hi : Inv closed e) (ha : e.AllLive) {flow : Nat} {f : Flow}
    {parent : Option (InstanceId × Nat)} {isAction : Bool}
    (hp : ∀ p, parent = some p → e.forest.contains p.1 = true) (hc : isAction = parent.isSome) :
    Fresh (e.nextId flow f parent isAction) (e.begun flow f parent isAction) where
  instance? := by
    refine ⟨_, Forest.get?_insert_self hi.sound.free
      (rooted_freshInstance flow f hp hc e.heap), rfl, fun c => ?_⟩
    unfold Instance.progress?
    dsimp only
    rw [Array.getElem?_replicate]
    split <;> rfl
  journal := ⟨flow, _, e.journal, rfl⟩
  queue t ht heq := ha t ht (heq ▸ nextId_fresh hi.sound.free flow f parent isAction)

/-- **Who is there after a pace and was not before** has just begun and was then left alone. -/
theorem Pace.fresh (h : Pace closed own e e') (hi : Inv closed e) (ha : e.AllLive)
    (hn : e.instance? i = none) (hl : e'.instance? i ≠ none) :
    ∃ e₁, Fresh i e₁ ∧ ∀ c, Unmoved i c e₁ e' := by
  have hmark {event : Event} (j : InstanceId) (component : Nat) (waits : Bool)
      (hl : ((e.record event).markAsync j component waits).instance? i ≠ none) : False := by
    rw [instance?_markAsync] at hl
    split at hl
    · next hij =>
      subst hij
      rw [show (e.record event).instance? i = none from hn] at hl
      exact hl rfl
    · exact hl hn
  have harisen {flow : Nat} {f : Flow} {parent : Option (InstanceId × Nat)} {isAction : Bool}
      (hp : ∀ p, parent = some p → e.forest.contains p.1 = true)
      (hc : isAction = parent.isSome)
      (hl : (e.arisen flow f parent isAction).instance? i ≠ none) :
      Fresh i (e.begun flow f parent isAction)
        ∧ ∀ c, Unmoved i c (e.begun flow f parent isAction) (e.arisen flow f parent isAction) := by
    have hpings : Strokes closed untouched (e.begun flow f parent isAction)
        (e.arisen flow f parent isAction) := strokes_arisen flow f parent isAction
    have hbegun : (e.begun flow f parent isAction).instance? i ≠ none :=
      fun h => hl (hpings.calm.none_iff.mpr h)
    refine ⟨?_, fun c => hpings.unmoved (fun _ => id) hbegun⟩
    obtain ⟨s, hs⟩ := Option.ne_none_iff_exists'.mp hbegun
    rcases instance?_begun_cases hi.sound hp hc hs with ⟨rfl, _⟩ | ⟨_, t, _, ht, _⟩
    · exact fresh_begun hi ha hp hc
    · exact nomatch hn.symm.trans ht
  cases h with
  | stroke h => exact absurd (h.calm.none_iff.mpr hn) hl
  | await j component => exact (hmark j component true hl).elim
  | release child j component => exact (hmark j component false hl).elim
  | begin _ _ => exact ⟨_, harisen (fun _ h => nomatch h) rfl hl⟩
  | @call flow f j component _ hcaller =>
    have hlive : ∀ p, some (j, component) = some p → e.forest.contains p.1 = true := by
      rintro p ⟨⟩
      exact hcaller
    have harises : (e.arisen flow f (some (j, component)) true).instance? i ≠ none := by
      intro hnone
      rw [instance?_startAsync] at hl
      split at hl
      · next hij =>
        subst hij
        rw [hnone] at hl
        exact hl rfl
      · exact hl hnone
    obtain ⟨hfresh, hpings⟩ := harisen hlive rfl harises
    exact ⟨_, hfresh, fun c => (hpings c).trans (.mark (hpings c).live' j component true rfl)⟩
  | destroy h => exact absurd (h.wanes.none_of_none hn) hl
  | settle _ | stop => exact absurd hn hl

end

end Engine

end InstrumentFlow
