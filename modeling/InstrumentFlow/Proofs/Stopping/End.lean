import InstrumentFlow.Proofs.Lifetime
import InstrumentFlow.Proofs.Suspension.Order

/-!
# The end of a run, and new starts

What is left when a run was brought to its end, and what was reported on the way. A flow may also be
started while others are there. They stay as they are, and a stop that was pending is taken back.

* `Releases` -- progress that went away was reported;
* `Destroys.releases` -- destructions report the progress that they end;
* `Over` -- nothing is left;
* `WoundUp`, `woundUp_shutdown` -- how a run ends;
* `Joins` -- what pings of components of an instance change;
* `Restarts` -- what a new start changes;
* `restarts_startFlow` -- so it does, also where there is no such flow.
-/

namespace InstrumentFlow.Engine

open Relation (TransGen)

/-! ## 1. Progress that goes away -/

/-- **Progress that went away was reported.** -/
def Releases (e e' : Engine) : Prop :=
  ∃ news, e'.journal = news ++ e.journal ∧ ∀ i c p, e.progress? i c = some p →
    e'.progress? i c = some p ∨ .progressChanged i c ∈ news

namespace Releases

theorem refl (e : Engine) : Releases e e := ⟨[], rfl, fun _ _ _ h => Or.inl h⟩

theorem trans {e e' e'' : Engine} (h : Releases e e') (h' : Releases e' e'') :
    Releases e e'' := by
  obtain ⟨news, hj, hp⟩ := h
  obtain ⟨news', hj', hp'⟩ := h'
  refine ⟨news' ++ news, by rw [hj', hj, List.append_assoc], fun i c p h => ?_⟩
  rcases hp i c p h with h | h
  · rcases hp' i c p h with h' | h'
    · exact Or.inl h'
    · exact Or.inr (List.mem_append_left _ h')
  · exact Or.inr (List.mem_append_right _ h)

/-- All progress is the same as before. -/
theorem same {e e' : Engine} (hj : e.journal <:+ e'.journal)
    (hp : ∀ i c, e'.progress? i c = e.progress? i c) : Releases e e' := by
  obtain ⟨news, hnews⟩ := hj
  exact ⟨news, hnews.symm, fun i c p h => Or.inl ((hp i c).trans h)⟩

theorem release (e : Engine) (i : InstanceId) (component : Nat) :
    Releases e (e.releaseProgress i component) := by
  unfold releaseProgress
  split
  · refine ⟨[.progressChanged i component], rfl, fun j c p h => ?_⟩
    by_cases hpair : j = i ∧ c = component
    · obtain ⟨rfl, rfl⟩ := hpair
      exact Or.inr List.mem_cons_self
    · refine Or.inl ?_
      show (e.setProgress i component none).progress? j c = some p
      rw [progress?_setProgress, if_neg hpair]
      exact h
  · exact refl e

theorem clearAsync (e : Engine) (child : Option InstanceId) (i : InstanceId) (component : Nat) :
    Releases e (e.clearAsync child i component) := by
  have hmark (e : Engine) (j : InstanceId) (c : Nat) :
      (e.markAsync i component false).progress? j c = e.progress? j c := by
    unfold markAsync
    split
    · rfl
    · split
      · exact progress?_modifyInstance e i (·.setAsync component false) (fun _ => rfl) j c
      · rfl
  refine same ?_ (hmark _)
  exact (List.suffix_cons _ _).trans (journal_markAsync (e.record _) i component false)

/-- **An instance without its progress**: all of it was reported. -/
theorem stripped (e : Engine) (i : InstanceId) :
    ∃ news, (e.stripped i).journal = news ++ e.journal
      ∧ ∀ c p, e.progress? i c = some p → .progressChanged i c ∈ news := by
  have hfold (cs : List Nat) (e : Engine) :
      ∃ news, (cs.foldl (fun e c => e.releaseProgress i c) e).journal = news ++ e.journal
        ∧ ∀ c ∈ cs, ∀ p, e.progress? i c = some p → .progressChanged i c ∈ news := by
    induction cs generalizing e with
    | nil => exact ⟨[], rfl, fun _ h => nomatch h⟩
    | cons c cs ih =>
      obtain ⟨news, hj, hp⟩ := release e i c
      obtain ⟨news', hj', hp'⟩ := ih (e.releaseProgress i c)
      refine ⟨news' ++ news, by rw [List.foldl_cons, hj', hj, List.append_assoc], ?_⟩
      intro k hk p h
      rcases hp i k p h with hsame | hnews
      · rcases List.mem_cons.mp hk with rfl | hk
        · rw [progress?_releaseProgress] at hsame
          cases hsame
        · exact List.mem_append_left _ (hp' k hk p hsame)
      · exact List.mem_append_right _ hnews
  unfold Engine.stripped
  obtain ⟨news, hj, hp⟩ := hfold (((e.instance? i).map Instance.openComponents).getD []) e
  refine ⟨news, hj, fun c p h => hp c ?_ p h⟩
  obtain ⟨s, hs, hc⟩ := Option.bind_eq_some_iff.mp h
  rw [hs, Option.map_some, Option.getD_some]
  have hlt : c < s.progress.size := by
    refine Nat.lt_of_not_le fun hle => ?_
    unfold Instance.progress? at hc
    rw [Array.getElem?_eq_none hle] at hc
    cases hc
  exact List.mem_filter.mpr ⟨List.mem_range.mpr hlt, by rw [hc]; rfl⟩

theorem buried {e : Engine} {i : InstanceId} {s : Instance} {forest : Forest}
    (hr : (e.stripped i).forest.remove i = some (s, forest)) :
    Releases e ((e.stripped i).buried i forest) := by
  obtain ⟨news, hj, hp⟩ := stripped e i
  refine ⟨.destroyed i :: news, ?_, fun j c p h => ?_⟩
  · show .destroyed i :: (e.stripped i).journal = _
    rw [hj]
    rfl
  by_cases hij : j = i
  · subst hij
    exact Or.inr (List.mem_cons_of_mem _ (hp c p h))
  -- another instance is as it was, but for its children
  obtain ⟨t, ht, hc⟩ := Option.bind_eq_some_iff.mp h
  have hsame := (progressOnly_stripped e i).others j hij
  obtain ⟨t', ht', _⟩ := Forest.get?_remove_of_some hr hij (hsame.trans ht)
  obtain ⟨_, u, l, hu, rfl⟩ := Forest.get?_remove_children hr ht'
  obtain rfl : u = t := Option.some.inj (hu.symm.trans (hsame.trans ht))
  refine Or.inl ?_
  show (forest.get? j).bind _ = some p
  rw [ht', Option.bind_some]
  exact hc

end Releases

/-- **Destructions report the progress that they end.** -/
theorem Destroys.releases {job : Job} {e e' : Engine} (h : Destroys job e e') :
    Releases e e' := by
  induction h with
  | gone _ | nil | unheard _ => exact .refl _
  | root _ _ hr _ ihk => exact ihk.trans (.buried hr)
  | called _ _ hr _ _ ihk ihw => exact ihk.trans ((Releases.buried hr).trans ihw)
  | again _ _ _ ihk => exact ihk.trans (.same (List.suffix_cons _ _) fun _ _ => rfl)
  | cons _ _ ihk ihks => exact ihk.trans ihks
  | heard _ _ => exact .clearAsync _ _ _ _
  | falls _ _ _ ih => exact (Releases.clearAsync _ _ _ _).trans ih

/-! ## 2. The end of a run -/

/-- **Nothing is left**: no instance, no task, no value on the stack, and no pending stop. -/
structure Over (e : Engine) : Prop where
  gone : ∀ i, e.instance? i = none
  live : e.forest.live = 0
  roots : e.forest.roots = []
  queue : e.queue.tasks = []
  stack : e.stack.depth = 0
  stopped : e.stopped = true
  pending : e.stopRequested = false

/-- **How a run ends.** Nothing is left. The end of whoever was there is reported, after the ends of
    all its descendants, all progress that was open is reported to go away, and no task has its turn
    meanwhile and no step begins. -/
structure WoundUp (e e' : Engine) (news : List Event) : Prop where
  journal : e'.journal = news ++ e.journal
  finished : e'.Over
  reported : ∀ i, e.instance? i ≠ none → .destroyed i ∈ news
  ordered : ∀ i k, TransGen e.forest.IsCaller i k → Preceded (.destroyed i) (.destroyed k) news
  released : ∀ i c p, e.progress? i c = some p → .progressChanged i c ∈ news
  quiet : ∀ event ∈ news, event.isAct = false

/-- A forest without instances has no roots either. -/
theorem empty_of_gone {f : Forest} (hf : f.Sound) (hn : ∀ i, f.get? i = none) :
    f.live = 0 ∧ f.roots = [] := by
  have hids : f.ids = [] := by
    refine List.eq_nil_iff_forall_not_mem.mpr fun i hi => ?_
    obtain ⟨s, hs⟩ := Forest.mem_ids.mp hi
    rw [hn i] at hs
    cases hs
  refine ⟨?_, List.eq_nil_iff_forall_not_mem.mpr fun i hi => ?_⟩
  · rw [hf.live_eq, ← Forest.length_ids, hids, List.length_nil]
  · obtain ⟨s, hs, _⟩ := (hf.mem_roots i).mp hi
    rw [hn i] at hs
    cases hs

/-- **A shutdown ends the run.** -/
theorem woundUp_shutdown {closed : Prop} {e : Engine} (hi : Inv closed e) :
    ∃ news, WoundUp e e.shutdown news := by
  have hdestroys := destroys_freeAll hi e.forest.roots
  have hgone := instance?_freeAll hi
  have hshutdown : e.shutdown = (e.forest.roots.foldl (fun e root => e.free root) e).halt := rfl
  rw [hshutdown]
  generalize e.forest.roots.foldl (fun e root => e.free root) e = e₁ at hdestroys hgone ⊢
  have hchanges : Changes closed e e₁ := hdestroys.changes hi
  obtain ⟨hlive, hroots⟩ := empty_of_gone (hchanges.inv hi).sound hgone
  obtain ⟨news, hj, hreleases⟩ := hdestroys.releases
  refine ⟨.halted :: news, ?_, ⟨hgone, hlive, hroots, rfl, rfl, rfl, rfl⟩, fun i hl => ?_,
    fun i k hk => ?_, fun i c p hp => ?_, fun event he => ?_⟩
  · show .halted :: e₁.journal = _
    rw [hj]
    rfl
  · obtain ⟨s, hs⟩ := Option.ne_none_iff_exists'.mp hl
    obtain ⟨news', hj', hreport⟩ := hchanges.reported_news hi hs (hgone i)
    obtain rfl : news' = news := List.append_cancel_right (hj'.symm.trans hj)
    exact List.mem_cons_of_mem _ hreport
  · refine Preceded.cons (fun a b hnews => ?_) fun h => nomatch h
    refine hchanges.preceded_journal hi hk (a := a) (b := b) ?_
    rw [hj, hnews]
    simp
  · rcases hreleases i c p hp with hleft | hreport
    · exact absurd (hgone i) (live_of_progress? hleft)
    · exact List.mem_cons_of_mem _ hreport
  · rcases List.mem_cons.mp he with rfl | he
    · rfl
    obtain ⟨news', ht, hn⟩ := Tells.destroys hdestroys
    obtain rfl : news' = news := List.append_cancel_right (ht.journal.symm.trans hj)
    have hturn := hn event he
    cases event with
    | taken _ | stepped _ | ended _ _ _ | discarded _ | restarted => cases hturn
    | _ => rfl

/-- What is recorded after the end changes nothing of it. -/
theorem WoundUp.record {e e' : Engine} {news : List Event} (h : WoundUp e e' news) {event : Event}
    (hl : event.isLife = false) (ha : event.isAct = false) :
    WoundUp e (e'.record event) (event :: news) where
  journal := congrArg (event :: ·) h.journal
  finished := ⟨h.finished.gone, h.finished.live, h.finished.roots, h.finished.queue,
    h.finished.stack, h.finished.stopped, h.finished.pending⟩
  reported i hi := List.mem_cons_of_mem event (h.reported i hi)
  ordered i k hk := (h.ordered i k hk).cons fun he => by
    rw [he] at hl
    cases hl
  released i c p hp := List.mem_cons_of_mem event (h.released i c p hp)
  quiet event' he := by
    rcases List.mem_cons.mp he with rfl | he
    · exact ha
    · exact h.quiet event' he

/-- **A tick in which a stop is pending** ends the run. -/
theorem woundUp_endTick {closed : Prop} {e : Engine} (hi : Inv closed e)
    (hp : e.stopRequested = true) (report : TickReport) :
    ∃ news, WoundUp e (endTick report e).2 news := by
  obtain ⟨news, h⟩ := woundUp_shutdown hi
  refine ⟨.tickEnded :: news, ?_⟩
  unfold endTick
  rw [hp]
  exact h.record rfl rfl

/-! ## 3. Pings -/

/-- **What pings of components of an instance change**: the instance itself, and tasks join the
    queue. Where a task is refused a stop is asked for. -/
structure Joins (i : InstanceId) (e e' : Engine) : Prop where
  others : ∀ j, j ≠ i → e'.instance? j = e.instance? j
  stopped : e'.stopped = e.stopped
  news : ∃ news ts, e'.journal = news ++ e.journal ∧ e'.queue.tasks = e.queue.tasks ++ ts
    ∧ (e'.stopRequested = true → e.stopRequested = true ∨ ∃ t, .refused t ∈ news)

theorem Joins.refl (i : InstanceId) (e : Engine) : Joins i e e :=
  ⟨fun _ _ => rfl, rfl, [], [], rfl, (List.append_nil _).symm, Or.inl⟩

theorem Joins.trans {i : InstanceId} {e e' e'' : Engine} (h : Joins i e e')
    (h' : Joins i e' e'') : Joins i e e'' := by
  obtain ⟨news, ts, hj, hq, hp⟩ := h.news
  obtain ⟨news', ts', hj', hq', hp'⟩ := h'.news
  refine ⟨fun j hij => (h'.others j hij).trans (h.others j hij), h'.stopped.trans h.stopped,
    news' ++ news, ts ++ ts', by rw [hj', hj, List.append_assoc],
    by rw [hq', hq, List.append_assoc], fun hs => ?_⟩
  rcases hp' hs with hs | ⟨t, ht⟩
  · rcases hp hs with hs | ⟨t, ht⟩
    · exact Or.inl hs
    · exact Or.inr ⟨t, List.mem_append_right _ ht⟩
  · exact Or.inr ⟨t, List.mem_append_left _ ht⟩

theorem joins_ping (e : Engine) (i : InstanceId) (component : Nat) :
    Joins i e (e.ping i component).2 := by
  rcases ping_cases e i component with ⟨queue, _, hq, he⟩ | he | ⟨_, he⟩
  · rw [he]
    exact ⟨fun _ _ => rfl, rfl, [.pushed ⟨i, component, false⟩], _, rfl, tasks_of_push hq, Or.inl⟩
  · rw [he]
    exact .refl i e
  · rw [he]
    exact ⟨fun j hij => Forest.get?_modify_of_ne hij _, rfl,
      [.stopAsked, .failed i component FlowError.queueFull.message,
        .refused ⟨i, component, false⟩],
      [], rfl, (List.append_nil _).symm,
      fun _ => Or.inr ⟨⟨i, component, false⟩, by simp⟩⟩

theorem joins_pingAll (e : Engine) (i : InstanceId) (components : List Nat) :
    Joins i e (e.pingAll i components) := by
  unfold pingAll
  induction components generalizing e with
  | nil => exact .refl i e
  | cons c cs ih => exact (joins_ping e i c).trans (ih _)

/-! ## 4. Starts -/

/-- **What a new start changes.** Who is there stays as it is, and so do its tasks. The run goes on:
    a stop is pending afterwards only where a task was refused. -/
structure Restarts (e e' : Engine) : Prop where
  stopped : e'.stopped = false
  kept : ∀ i s, e.instance? i = some s → e'.instance? i = some s
  news : ∃ news ts, e'.journal = news ++ e.journal ∧ e'.queue.tasks = e.queue.tasks ++ ts
    ∧ (e'.stopRequested = true → ∃ t, .refused t ∈ news)

/-- A flow that nobody called begins beside the others. -/
theorem kept_begun {e : Engine} (hs : e.forest.Sound) (flow : Nat) (f : Flow) {i : InstanceId}
    {s : Instance} (hi : e.instance? i = some s) :
    (e.begun flow f none false).instance? i = some s ∧ i ≠ e.nextId flow f none false := by
  have hne : i ≠ e.nextId flow f none false := by
    intro heq
    rw [heq, nextId_fresh hs.free] at hi
    cases hi
  refine ⟨?_, hne⟩
  have hrooted : e.forest.Rooted (freshInstance flow f none false e.heap).1 :=
    rooted_freshInstance flow f (fun p (h : none = some p) => nomatch h) rfl e.heap
  have hget := Forest.get?_insert hs.free hrooted i
  unfold nextId at hne
  rw [if_neg hne, show e.forest.get? i = some s from hi] at hget
  exact hget

/-- **A new start takes a stop back**, also where there is no such flow. -/
theorem restarts_startFlow {closed : Prop} {e : Engine} (hi : Inv closed e) (flow : Nat) :
    Upholds (Restarts e) (fun _ _ => True) (startFlow flow) e := by
  unfold startFlow
  refine upholds_modify_bind ?_
  generalize he₁ : ({ e.record .restarted with
    stopped := false, stopRequested := false, lastError := none } : Engine) = e₁
  have hforest : e₁.forest = e.forest := by rw [← he₁]; rfl
  have hrestart : Restarts e e₁ := by
    rw [← he₁]
    exact ⟨rfl, fun _ _ h => h, [.restarted], [], rfl, (List.append_nil _).symm,
      fun hp => nomatch hp⟩
  unfold Upholds
  rcases create_cases e₁ flow none false with ⟨err, herror⟩ | ⟨f, _, _, hok⟩
  · rw [herror]
    exact hrestart
  · rw [hok]
    refine ⟨?_, trivial⟩
    have hsound : e₁.forest.Sound := hforest ▸ hi.sound
    have hjoins : Joins (e₁.nextId flow f none false) (e₁.begun flow f none false)
        (e₁.arisen flow f none false) := joins_pingAll _ _ _
    obtain ⟨news, ts, hj, hq, hp⟩ := hjoins.news
    refine ⟨hjoins.stopped.trans hrestart.stopped, fun i s hs => ?_, ?_⟩
    · obtain ⟨hbegun, hne⟩ := kept_begun hsound flow f (hrestart.kept i s hs)
      exact (hjoins.others i hne).trans hbegun
    · obtain ⟨event, hbegun⟩ : ∃ event : Event, (e₁.begun flow f none false).journal
          = event :: e₁.journal := ⟨_, rfl⟩
      refine ⟨news ++ [event, .restarted], ts, ?_, ?_, fun hs => ?_⟩
      · rw [hj, hbegun, ← he₁, List.append_assoc]
        rfl
      · rw [hq, ← he₁]
        rfl
      · rcases hp hs with hpending | ⟨t, ht⟩
        · rw [← he₁] at hpending
          cases hpending
        · exact ⟨t, List.mem_append_left _ ht⟩

end InstrumentFlow.Engine
