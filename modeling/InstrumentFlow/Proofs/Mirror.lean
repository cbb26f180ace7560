import InstrumentFlow.Proofs.Engine.Reached
import InstrumentFlow.Proofs.Lifetime.Events
import InstrumentFlow.Proofs.Mirror.Sights

/-!
# A copy of storage

A host that reads a place again whenever it is told of a change, and the slots of an instance when
it is told that the instance begins, knows what every slot and every global variable holds. What
the host reads then is in the journal, with the event of which it is told.

* `Glimpse` -- what can be read of a run: now, or when the host was told of an event;
* `Shift`, `Trail` -- what can be read before and after one event, and before and after a row;
* `Trail.stays`, `Trail.eq_changed` -- a place whose end is not told is there all the time, and no
  other gets its name;
* `Trail.last_change` -- nothing changes after the last event that shows a place;
* `copy`, `Trail.copy_eq` -- what a host wrote down is what the places hold;
* `Glimpse.trail` -- between any two glimpses of a run there is a trail;
* `storage_mirrored` -- **storage can be mirrored** in every run.
-/

namespace InstrumentFlow.Engine

/-! ## 1. What is told, and when -/

/-- **A glimpse of a run** that came to the state `e`: what had happened at some moment, the latest
    first, and what could be read then. The moment is now, or one at which the host was told that a
    place changed or that an instance began. -/
inductive Glimpse (e : Engine) : List Event → Reading → Prop
  | now : Glimpse e e.journal e.content?
  | told {later earlier : List Event} {event : Event} {r : Reading}
      (hj : e.journal = later ++ event :: earlier) (hr : event.found? = some r) :
      Glimpse e (event :: earlier) r

/-- What a host wrote down of a place: what it read there when it was told of it the last time,
    and before that what it knew from the beginning. -/
def copy (known : Reading) : List Event → Reading
  | [], l => known l
  | event :: earlier, l =>
    match event.found? with
    | some r => if event.shows l then r l else copy known earlier l
    | none => copy known earlier l

/-- **One event**, by what can be read before and after it. It shows where something else is
    found, the host that reads then finds what there is, a new instance had no slots before, and
    only the slots of an instance that ends can be read no more. -/
structure Shift (s : Reading) (event : Event) (s' : Reading) : Prop where
  shown : ∀ l, s' l ≠ none → s' l ≠ s l → event.shows l = true
  found : ∀ r, event.found? = some r → r = s'
  fresh : ∀ i flow r n, event = @Event.created i flow r → s (.slot i n) = none
  lost : ∀ l, s l ≠ none → s' l = none → ∃ i n, l = .slot i n ∧ event = .destroyed i

/-- **A row of events**, the latest first, and what can be read before and after it. -/
inductive Trail (s : Reading) : List Event → Reading → Prop
  | start : Trail s [] s
  | told {events : List Event} {event : Event} {s' s'' : Reading} (h : Trail s events s')
      (ht : Shift s' event s'') : Trail s (event :: events) s''

namespace Sight

variable {e e' : Engine}

/-- Where nothing is told, nothing else can be read. -/
theorem content?_of_silent (h : Sight e none e') : e'.content? = e.content? := by
  funext l
  refine Classical.byContradiction fun hne => ?_
  have hgone : e'.content? l = none := Classical.byContradiction fun hl => nomatch h.shown l hl hne
  obtain ⟨i, n, _, hevent⟩ := h.lost l (fun hn => hne (hgone.trans hn.symm)) hgone
  cases hevent

/-- A sight by which something is told is an event. -/
theorem shift {event : Event} (h : Sight e (some event) e') :
    Shift e.content? event e'.content? where
  shown := h.shown
  found := h.found
  fresh i flow r n hevent := by
    rw [content?_slot, h.fresh i flow r (congrArg some hevent)]
    rfl
  lost l hl hn := by
    obtain ⟨i, n, hslot, hevent⟩ := h.lost l hl hn
    exact ⟨i, n, hslot, Option.some.inj hevent⟩

end Sight

/-- **Sights leave a trail**, and its events are those of the journal. -/
theorem Sights.trail {e e' : Engine} (h : Sights e e') :
    ∃ news, e'.journal = news ++ e.journal ∧ Trail e.content? news e'.content? := by
  induction h with
  | refl => exact ⟨[], rfl, .start⟩
  | tail _ h ih =>
    obtain ⟨news, hj, ht⟩ := ih
    obtain ⟨event?, hs⟩ := h
    cases event? with
    | none => exact ⟨news, hs.journal.trans hj, hs.content?_of_silent ▸ ht⟩
    | some event => exact ⟨event :: news, hs.journal.trans (congrArg _ hj), ht.told hs.shift⟩

/-! ## 2. Trails -/

namespace Trail

variable {s s' : Reading} {events : List Event}

theorem trans {later : List Event} {s'' : Reading} (h : Trail s events s')
    (h' : Trail s' later s'') : Trail s (later ++ events) s'' := by
  induction h' with
  | start => exact h
  | told _ ht ih => exact ih.told ht

/-- A trail can be cut anywhere. -/
theorem cut {later : List Event} (h : Trail s (later ++ events) s') :
    ∃ s₁, Trail s events s₁ ∧ Trail s₁ later s' := by
  induction later generalizing s' with
  | nil => exact ⟨s', h, .start⟩
  | cons event later ih =>
    obtain _ | ⟨h, ht⟩ := h
    obtain ⟨s₁, hearlier, hlater⟩ := ih h
    exact ⟨s₁, hearlier, hlater.told ht⟩

/-- What the host reads when it is told of the last event is what there is. -/
theorem found {event : Event} {r : Reading} (h : Trail s (event :: events) s')
    (hr : event.found? = some r) : r = s' := by
  obtain _ | ⟨_, ht⟩ := h
  exact ht.found r hr

variable (h : Trail s events s')
include h

/-- **A place stays** unless the end of its instance is told. -/
theorem stays {l : Location} (hl : s l ≠ none)
    (hd : ∀ i n, l = .slot i n → .destroyed i ∉ events) : s' l ≠ none := by
  induction h with
  | start => exact hl
  | told _ ht ih =>
    intro hn
    have hthere := ih fun i n hslot hmem => hd i n hslot (List.mem_cons_of_mem _ hmem)
    obtain ⟨i, n, hslot, hevent⟩ := ht.lost l hthere hn
    exact hd i n hslot (List.mem_cons.mpr (Or.inl hevent.symm))

/-- Of a place that stays, an event tells only that just this place changed: no new instance gets
    the handle of one that stays. -/
theorem eq_changed {l : Location}
    (hd : ∀ i n, l = .slot i n → s l ≠ none ∧ .destroyed i ∉ events) {event : Event}
    (hmem : event ∈ events) (hs : event.shows l = true) : ∃ r, event = @Event.changed l r := by
  rcases Event.shows_cases hs with hchanged | ⟨i, flow, r, n, rfl, rfl⟩
  · exact hchanged
  · obtain ⟨hl, hend⟩ := hd i n rfl
    obtain ⟨later, earlier, rfl⟩ := List.append_of_mem hmem
    obtain ⟨s₁, hfirst, _⟩ := h.cut
    obtain _ | ⟨hearlier, ht⟩ := hfirst
    refine absurd (ht.fresh i flow r n rfl) (hearlier.stays hl fun j m hslot hmem => ?_)
    cases hslot
    exact hend (List.mem_append_right _ (List.mem_cons_of_mem _ hmem))

/-- **The last change of a place is told**: an event shows the place, and what the host reads then
    is what the place holds in the end; no later event shows it, and whatever the host reads
    later, it finds the same there. -/
theorem last_change {l : Location} (hl : s' l ≠ none) (hne : s' l ≠ s l) :
    ∃ later event r earlier, events = later ++ event :: earlier ∧ event.shows l = true
      ∧ event.found? = some r ∧ r l = s' l
      ∧ ∀ x ∈ later, x.shows l = false ∧ ∀ r', x.found? = some r' → r' l = s' l := by
  induction h with
  | start => exact absurd rfl hne
  | @told events event s₁ s' _ ht ih =>
    cases hshows : event.shows l with
    | true =>
      obtain ⟨r, hr⟩ := Event.exists_found?_of_shows hshows
      exact ⟨[], event, r, events, rfl, hshows, hr, congrFun (ht.found r hr) l,
        fun _ h => nomatch h⟩
    | false =>
      have hsame : s' l = s₁ l := Classical.byContradiction fun hother => by
        rw [ht.shown l hl hother] at hshows
        cases hshows
      obtain ⟨later, shown, r, earlier, rfl, hshown, hr, hthen, hlater⟩ :=
        ih (hsame ▸ hl) (hsame ▸ hne)
      refine ⟨event :: later, shown, r, earlier, rfl, hshown, hr, hthen.trans hsame.symm, ?_⟩
      intro x hx
      rcases List.mem_cons.mp hx with rfl | hx
      · exact ⟨hshows, fun r' hr' => congrFun (ht.found r' hr') l⟩
      · exact ⟨(hlater x hx).1, fun r' hr' => ((hlater x hx).2 r' hr').trans hsame.symm⟩

/-- **The copy is right**, wherever there is something to read. -/
theorem copy_eq {known : Reading} (hk : ∀ l, s l ≠ none → known l = s l) {l : Location}
    (hl : s' l ≠ none) : copy known events l = s' l := by
  induction h with
  | start => exact hk l hl
  | @told events event s₁ s' _ ht ih =>
    have hsame (hother : event.shows l = false) : copy known events l = s' l := by
      have hsame : s' l = s₁ l := Classical.byContradiction fun hne => by
        rw [ht.shown l hl hne] at hother
        cases hother
      rw [ih (hsame ▸ hl), hsame]
    unfold copy
    split
    · next r hr =>
      split
      · exact congrFun (ht.found r hr) l
      · next hother => exact hsame (eq_false_of_ne_true hother)
    · next hr =>
      refine hsame (eq_false_of_ne_true fun hshows => ?_)
      obtain ⟨r, hr'⟩ := Event.exists_found?_of_shows hshows
      cases hr.symm.trans hr'

end Trail

/-! ## 3. Every run -/

/-- Every run has left a trail from its beginning. -/
theorem Reached.trail {d : Definition} {e : Engine} (h : Reached d e) :
    ∃ s, Trail s e.journal e.content? := by
  obtain ⟨hb, h⟩ := h
  obtain ⟨news, hj, ht⟩ := (h.sights (inv_build hb False.elim)).trail
  obtain ⟨_, rfl⟩ := build_eq_ok_iff.mp hb
  have hall : _ = news := hj.trans (List.append_nil news)
  exact ⟨_, hall ▸ ht⟩

/-- **Between any two glimpses of a run there is a trail.** -/
theorem Glimpse.trail {d : Definition} {e e' : Engine} (hreached : Reached d e)
    (hrun : Leaps False False False e e') {past news : List Event} {s s' : Reading}
    (h : Glimpse e past s) (h' : Glimpse e' (news ++ past) s') : Trail s news s' := by
  obtain ⟨s₀, hbefore⟩ := hreached.trail
  -- the trail from the first glimpse to the state `e`
  obtain ⟨later, hj, hfirst, hlater⟩ : ∃ later, e.journal = later ++ past
      ∧ Trail s₀ past s ∧ Trail s later e.content? := by
    cases h with
    | now => exact ⟨[], rfl, hbefore, .start⟩
    | told hj hr =>
      rw [hj] at hbefore
      obtain ⟨s₁, hfirst, hlater⟩ := hbefore.cut
      obtain rfl := hfirst.found hr
      exact ⟨_, hj, hfirst, hlater⟩
  obtain ⟨after, hj', hafter⟩ := (hrun.sights hreached.inv).trail
  have hall : Trail s (after ++ later) e'.content? := hlater.trans hafter
  have hjournal : e'.journal = (after ++ later) ++ past := by
    rw [hj', hj, List.append_assoc]
  generalize hpast : news ++ past = past' at h'
  cases h' with
  | now =>
    rw [List.append_cancel_right (hpast.trans hjournal)]
    exact hall
  | @told rest earlier event r hj'' hr =>
    have hwhole : (after ++ later) ++ past = (rest ++ news) ++ past := by
      rw [← hjournal, hj'', ← hpast, List.append_assoc]
    have hsplit : after ++ later = rest ++ news := List.append_cancel_right hwhole
    rw [hsplit] at hall
    obtain ⟨s₁, hnews, _⟩ := hall.cut
    have htold : Trail s₀ (news ++ past) s₁ := hfirst.trans hnews
    rw [hpast] at htold
    rw [htold.found hr]
    exact hnews

/-- **Storage can be mirrored.** Take two glimpses of a run, one after the other, and the events
    between them. Where a slot of an instance that stays, or a global variable, holds something else
    at the second, the host was told of just this place, and what it could read then is what the
    place holds at the second; it was not told of the place again, and could read nothing else there
    whenever it was told of anything later. A host that knew what there was at the first, and reads
    a place whenever it is told of it and the slots of an instance when it is told that the instance
    begins, has written down what every slot of every live instance and every global variable holds
    at the second. -/
theorem storage_mirrored {d : Definition} {e e' : Engine} (hreached : Reached d e)
    (hrun : Leaps False False False e e') {past news : List Event} {s s' : Reading}
    (h : Glimpse e past s) (h' : Glimpse e' (news ++ past) s') :
    (∀ l, s' l ≠ s l → (∀ i n, l = .slot i n → s l ≠ none ∧ .destroyed i ∉ news) →
      ∃ later r earlier, news = later ++ @Event.changed l r :: earlier ∧ r l = s' l
        ∧ ∀ x ∈ later, (∀ r', x ≠ @Event.changed l r') ∧ ∀ r', x.found? = some r' → r' l = s' l)
    ∧ ∀ known : Reading, (∀ l, s l ≠ none → known l = s l) →
      ∀ l, s' l ≠ none → copy known news l = s' l := by
  have ht : Trail s news s' := h.trail hreached hrun h'
  refine ⟨fun l hne hstays => ?_, fun known hk l hl => ht.copy_eq hk hl⟩
  have hl : s' l ≠ none := fun hn =>
    ht.stays (fun hn' => hne (hn.trans hn'.symm)) (fun i n hslot => (hstays i n hslot).2) hn
  obtain ⟨later, event, r, earlier, hnews, hshown, hr, hthen, hlater⟩ := ht.last_change hl hne
  have hmem : event ∈ news := by
    rw [hnews]
    exact List.mem_append_right _ List.mem_cons_self
  obtain ⟨r', rfl⟩ := ht.eq_changed hstays hmem hshown
  obtain rfl : r' = r := Option.some.inj hr
  refine ⟨later, r', earlier, hnews, hthen, fun x hx => ⟨fun r'' hx' => ?_, (hlater x hx).2⟩⟩
  have hother := (hlater x hx).1
  rw [hx', show (@Event.changed l r'').shows l = true from beq_self_eq_true l] at hother
  cases hother

/-- A flow that assigns a number to its variable. -/
def assigningDefinition : Definition :=
  { constants := [.undefined, .null, .int 7]
    flows :=
      [{ name := "main", locals := [.undefined]
         components :=
          [{ kind := .setVariable
             properties := [⟨[0, 64, 0, 224]⟩, ⟨[2, 0, 0, 224]⟩] }] }] }

/-- The flow is started. -/
def assigning : Engine :=
  (built assigningDefinition {} .absent {}).after [.order ⟨.startFlow 0, none⟩]

/-- Its only variable. -/
def assignedPlace : Location := .slot ⟨0, 0⟩ 0

/-- The host is told of the assignment, finds the number then, and has it in its copy. -/
theorem storage_mirrored_assigning :
    Reached assigningDefinition assigning
    ∧ Leaps False False False assigning (assigning.after [.tick none])
    ∧ assigning.content? assignedPlace = some .undefined
    ∧ ∃ news, (assigning.after [.tick none]).journal = news ++ assigning.journal
      ∧ (∃ r, @Event.changed assignedPlace r ∈ news ∧ r assignedPlace = some (.int 7))
      ∧ copy assigning.content? news assignedPlace = some (.int 7) := by
  have hb : build assigningDefinition {} .absent {}
      = .ok (built assigningDefinition {} .absent {}) := rfl
  have hreached : Reached assigningDefinition assigning := reached_after hb _
  have hrun : Leaps False False False assigning (assigning.after [.tick none]) :=
    leaps_after hreached.inv False.elim id _ False.elim False.elim
  have hbefore : assigning.content? assignedPlace = some .undefined := by decide +kernel
  have hafter : (assigning.after [.tick none]).content? assignedPlace = some (.int 7) := by
    decide +kernel
  have hends : (assigning.after [.tick none]).reports ⟨0, 0⟩ = 0 := by decide +kernel
  obtain ⟨news, hj, -⟩ := (hrun.sights hreached.inv).trail
  have hend : Glimpse (assigning.after [.tick none]) (news ++ assigning.journal)
      (assigning.after [.tick none]).content? := hj ▸ .now
  obtain ⟨hchanges, hcopy⟩ := storage_mirrored hreached hrun .now hend
  refine ⟨hreached, hrun, hbefore, news, hj, ?_, ?_⟩
  · obtain ⟨later, r, earlier, hnews, hr, -⟩ := hchanges assignedPlace
      (by rw [hbefore, hafter]; nofun) fun i n hplace => by
        cases hplace
        refine ⟨fun hn => ?_, fun hmem => ?_⟩
        · cases hbefore.symm.trans hn
        · have hmem' : .destroyed ⟨0, 0⟩ ∈ (assigning.after [.tick none]).journal :=
            hj ▸ List.mem_append_left _ hmem
          exact List.countP_eq_zero.mp hends _ hmem' (beq_self_eq_true _)
    refine ⟨r, ?_, hr.trans hafter⟩
    rw [hnews]
    exact List.mem_append_right _ List.mem_cons_self
  · refine (hcopy _ (fun _ _ => rfl) assignedPlace ?_).trans hafter
    rw [hafter]
    exact Option.some_ne_none _

end InstrumentFlow.Engine
