import InstrumentFlow.Proofs.Serving.Abandonment
import InstrumentFlow.Proofs.Serving.Operations

/-!
# What a worker's clients may rely on

Clients, row and worker go step by step, in any order, and the instrument responds in any way. To
answer is one step: the response lies ready and nothing follows it.

* `look_refused`, `look_pending`, `look_answered`, `look_collected` -- what a look at a transaction
  shows, by what was told of it;
* `Protocol` -- what holds of a history;
* `worker_protocol` -- it holds of every history, those of a service among them.
-/

namespace InstrumentFlow.Scpi

/-! ## 1. What polls show -/

section

variable {reports : List Report} {n : Nat}

theorem look_refused {r : Request} (h : .refused r ∈ reports) :
    (outcomeIn reports r.transaction).look = .failed .resultUnavailable := by
  have hany : reports.any (Report.refuses r.transaction) = true :=
    List.any_eq_true.mpr ⟨_, h, beq_self_eq_true _⟩
  unfold outcomeIn
  rw [if_pos hany]
  rfl

theorem look_pending (hr : ∀ r, .refused r ∈ reports → r.transaction ≠ n)
    (ha : ∀ r ∈ executed reports, r.transaction ≠ n) : (outcomeIn reports n).look = .pending := by
  have hany : reports.any (Report.refuses n) = false := by
    rw [List.any_eq_false]
    intro report hmem hrefuses
    cases report with
    | refused r => exact hr r hmem (beq_iff_eq.mp hrefuses)
    | _ => cases hrefuses
  have hanswer : reports.findSome? (Report.answer? n) = none := by
    rw [List.findSome?_eq_none_iff]
    intro report hmem
    cases report with
    | executed r response heard => exact if_neg (ha r (List.mem_filterMap.mpr ⟨_, hmem, rfl⟩))
    | _ => rfl
  unfold outcomeIn
  rw [hany, hanswer]
  rfl

/-- What is told of an answer. -/
theorem answer?_eq_some {report : Report} {response : Response}
    (h : report.answer? n = some response) :
    ∃ r heard, report = .executed r response heard ∧ r.transaction = n := by
  cases report with
  | executed r response' heard =>
    unfold Report.answer? at h
    dsimp only at h
    split at h
    · next hr => exact ⟨r, heard, by rw [Option.some.inj h], hr⟩
    · cases h
  | _ => cases h

/-- A poll shows nothing but the answer to its own transaction. -/
theorem executed_of_look {response : Response} (h : (outcomeIn reports n).look = .response response) :
    ∃ r heard, .executed r response heard ∈ reports ∧ r.transaction = n := by
  unfold outcomeIn at h
  split at h
  · cases h
  · split at h
    · cases h
    · next answer hanswer =>
      split at h
      · cases h
      · obtain rfl : answer = response := Look.response.inj h
        obtain ⟨report, hmem, hreport⟩ := List.exists_of_findSome?_eq_some hanswer
        obtain ⟨r, heard, rfl, hr⟩ := answer?_eq_some hreport
        exact ⟨r, heard, hmem, hr⟩

theorem executed_append (reports more : List Report) :
    executed (reports ++ more) = executed reports ++ executed more := List.filterMap_append

section

variable {capacity : Nat} {p : Parties}

/-- No request is executed twice. -/
theorem Rows.executed_distinct (h : Rows capacity reports p) :
    (executed reports).Pairwise fun r r' => r.transaction < r'.transaction := by
  have hnumbers := h.books.numbers
  rw [← h.order, ← h.service, List.append_assoc] at hnumbers
  exact (List.pairwise_append.mp hnumbers).1

/-- A request that was executed was accepted, and so not refused. -/
theorem Rows.not_refuses (h : Rows capacity reports p) {r : Request} (hr : r ∈ executed reports) :
    reports.any (Report.refuses r.transaction) = false := by
  have hacc : r ∈ accepted reports := by
    rw [← h.order, ← h.service]
    exact List.mem_append_left _ (List.mem_append_left _ hr)
  rw [List.any_eq_false]
  intro report hmem hrefuses
  cases report with
  | refused r' => exact h.books.refused r' hmem r hacc (beq_iff_eq.mp hrefuses).symm
  | _ => cases hrefuses

/-- The answer to a request is the one that the instrument gave. -/
theorem Rows.findSome?_answer? (h : Rows capacity reports p) {r : Request} {response : Response}
    {heard : Bool} (hmem : .executed r response heard ∈ reports) :
    reports.findSome? (Report.answer? r.transaction) = some response := by
  obtain ⟨before, behind, rfl⟩ := List.append_of_mem hmem
  have hdistinct := h.executed_distinct
  rw [executed_append] at hdistinct
  have hbefore : before.findSome? (Report.answer? r.transaction) = none := by
    rw [List.findSome?_eq_none_iff]
    intro report hreport
    cases report with
    | executed r' response' heard' =>
      refine if_neg (Nat.ne_of_lt ?_)
      refine (List.pairwise_append.mp hdistinct).2.2 r' ?_ r List.mem_cons_self
      exact List.mem_filterMap.mpr ⟨_, hreport, rfl⟩
    | _ => rfl
  rw [List.findSome?_append, hbefore, Option.none_or, List.findSome?_cons]
  simp [Report.answer?]

theorem Rows.look_answered (h : Rows capacity reports p) {r : Request} {response : Response}
    {heard : Bool} (hmem : .executed r response heard ∈ reports)
    (hc : ∀ response', .polled r.transaction (.response response') ∉ reports) :
    (outcomeIn reports r.transaction).look = .response response := by
  have hcollects : reports.any (Report.collects r.transaction) = false := by
    rw [List.any_eq_false]
    intro report hreport hcollects
    unfold Report.collects at hcollects
    split at hcollects
    · next n response' =>
      rw [beq_iff_eq.mp hcollects] at hreport
      exact hc response' hreport
    · cases hcollects
  unfold outcomeIn
  rw [h.not_refuses (List.mem_filterMap.mpr ⟨_, hmem, rfl⟩), h.findSome?_answer? hmem, hcollects]
  rfl

/-- Once an answer was handed over, there is none. -/
theorem Rows.look_collected (h : Rows capacity reports p) {response : Response}
    (hmem : .polled n (.response response) ∈ reports) :
    (outcomeIn reports n).look = .failed .resultUnavailable := by
  have hany : reports.any (Report.collects n) = true :=
    List.any_eq_true.mpr ⟨_, hmem, beq_self_eq_true _⟩
  unfold outcomeIn
  split
  · rfl
  · split
    · next hnone =>
      rw [h.books.given n hnone] at hany
      cases hany
    · rfl

end

end

/-! ## 2. Every history -/

/-- **What holds of a history**, and of the state after it. -/
structure Protocol (capacity : Nat) (reports : List Report) (p : Parties) : Prop where
  /-- Requests are executed in the order in which they were accepted, each once: those that are not
      yet are the one that is being executed and the row. -/
  order : executed reports ++ p.current ++ p.row = accepted reports
  /-- No two requests are one transaction. -/
  distinct : (accepted reports).Pairwise fun r r' => r.transaction ≠ r'.transaction
  /-- A request is refused when the row is full, and accepted when it is not. -/
  full : ∀ earlier r later, reports = earlier ++ .refused r :: later →
    (accepted earlier).length = (begun earlier).length + capacity
  room : ∀ earlier r later, reports = earlier ++ .accepted r :: later →
    (accepted earlier).length < (begun earlier).length + capacity
  /-- A request that was refused is not executed. -/
  refused : ∀ r, .refused r ∈ reports → ∀ r' ∈ begun reports, r'.transaction ≠ r.transaction
  /-- As long as a transaction is not answered, a poll shows that it is pending, -/
  pending : ∀ earlier n look later, reports = earlier ++ .polled n look :: later →
    (∀ r, .refused r ∈ earlier → r.transaction ≠ n) →
    (∀ r ∈ executed earlier, r.transaction ≠ n) → look = .pending
  /-- then the first poll shows the answer, -/
  answered : ∀ earlier r response heard look later,
    reports = earlier ++ .polled r.transaction look :: later →
    .executed r response heard ∈ earlier →
    (∀ response', .polled r.transaction (.response response') ∉ earlier) →
    look = .response response
  /-- and every later one that there is none. -/
  collected : ∀ earlier n response look later, reports = earlier ++ .polled n look :: later →
    .polled n (.response response) ∈ earlier → look = .failed .resultUnavailable
  /-- Of a request that was refused there never is one. -/
  unavailable : ∀ earlier r look later,
    reports = earlier ++ .polled r.transaction look :: later →
    .refused r ∈ earlier → look = .failed .resultUnavailable
  /-- An answer goes to no transaction but its own. -/
  own : ∀ earlier n response later, reports = earlier ++ .polled n (.response response) :: later →
    ∃ r heard, .executed r response heard ∈ earlier ∧ r.transaction = n
  /-- Whether an answer is heard tells whether its transaction was abandoned. -/
  heard : ∀ earlier r response heard later,
    reports = earlier ++ .executed r response heard :: later →
      (heard = true ↔ .abandoned r.transaction ∉ earlier)
  /-- Had a transaction not been abandoned, all else could have happened as it did. -/
  withoutAbandonment : ∀ earlier n later, reports = earlier ++ .abandoned n :: later →
    ∃ later' p', Runs capacity (earlier ++ later') p' ∧ besides n later' = besides n later
      ∧ Alike n p p'
  /-- If one is abandoned now, all else can happen as it could. -/
  withAbandonment : ∀ n p', Step p (.abandoned n) p' → ∀ more q, Goes p more q →
    ∃ more' q', Goes p' more' q' ∧ besides n more' = besides n more ∧ Alike n q q'
  /-- When a dismissed worker has come to its end, all that was accepted is executed, and nothing
      more will be. -/
  ended : ∀ earlier later, reports = earlier ++ .ended :: later →
    executed earlier = accepted earlier ∧ accepted later = [] ∧ begun later = []
      ∧ executed later = []
  /-- The worker comes to an end of its steps, -/
  bounded : ∀ more q, Goes p more q → more.all Report.byWorker = true → more.length ≤ p.burden
  /-- and when it cannot make any, it has executed all that was accepted; if it was dismissed it is
      gone. -/
  finished : (∀ report q, Step p report q → report.byWorker = false) →
    executed reports = accepted reports ∧ (p.closing = true → p.worker = none)

section

variable {capacity : Nat} {reports : List Report} {p : Parties}

/-- The run up to some step. -/
theorem Runs.earlier {earlier later : List Report} (h : Runs capacity (earlier ++ later) p) :
    ∃ m, Runs capacity earlier m := by
  obtain ⟨m, hm, _⟩ := Goes.split h
  exact ⟨m, hm⟩

theorem Runs.heard_iff {earlier later : List Report} {r : Request} {response : Response}
    {heard : Bool} (h : Runs capacity (earlier ++ .executed r response heard :: later) p) :
    heard = true ↔ .abandoned r.transaction ∉ earlier := by
  obtain ⟨m, m', hm, hs, _⟩ := Goes.split_step h
  have hr := Runs.rows hm
  cases hs with
  | respond hw hi =>
    rw [decide_eq_true_iff, hr.held]
    have hsent := hr.books.accepted_lt r (hr.current_spec hw hi).1
    simp [hsent]

theorem Runs.without_abandonment {earlier later : List Report} {n : Nat}
    (h : Runs capacity (earlier ++ .abandoned n :: later) p) :
    ∃ later' p', Runs capacity (earlier ++ later') p' ∧ besides n later' = besides n later
      ∧ Alike n p p' := by
  obtain ⟨m, m', hm, hs, hlater⟩ := Goes.split_step h
  have halike := hs.alike_of_abandoned (Runs.rows hm)
  obtain ⟨later', p', hgo, hsame, hp'⟩ := hlater.alike halike
  exact ⟨later', p', hm.trans hgo, hsame, hp'⟩

theorem Runs.ended {earlier later : List Report}
    (h : Runs capacity (earlier ++ .ended :: later) p) :
    executed earlier = accepted earlier ∧ accepted later = [] ∧ begun later = []
      ∧ executed later = [] := by
  obtain ⟨m, m', _, hs, hlater⟩ := Goes.split_step h
  have hnone : m'.worker = none := by
    cases hs with
    | leave => rfl
  exact ⟨Runs.executed_of_ended h, (hlater.worker_none hnone).2⟩

/-- **Every run** keeps to the protocol. -/
theorem Runs.protocol (h : Runs capacity reports p) : Protocol capacity reports p := by
  have hr := Runs.rows h
  refine
    { order := ?_
      distinct := hr.books.numbers.imp Nat.ne_of_lt
      full := fun earlier r later heq => Runs.length_of_refused (heq ▸ h)
      room := fun earlier r later heq => Runs.length_of_accepted (heq ▸ h)
      refused := fun r hmem r' hr' => ?_
      pending := fun earlier n look later heq hr ha => ?_
      answered := fun earlier r response heard look later heq hmem hc => ?_
      collected := fun earlier n response look later heq hmem => ?_
      unavailable := fun earlier r look later heq hmem => ?_
      own := fun earlier n response later heq => ?_
      heard := fun earlier r response heard later heq => Runs.heard_iff (heq ▸ h)
      withoutAbandonment := fun earlier n later heq => Runs.without_abandonment (heq ▸ h)
      withAbandonment := fun n p' hs more q hgo => ?_
      ended := fun earlier later heq => Runs.ended (heq ▸ h)
      bounded := fun more q hgo hall => ?_
      finished := fun hstuck => ?_ }
  · rw [hr.service, hr.order]
  · refine hr.books.refused r hmem r' ?_
    rw [← hr.order]
    exact List.mem_append_left _ hr'
  · exact (Runs.look_of_polled (heq ▸ h)).trans (look_pending hr ha)
  · obtain ⟨m, hm⟩ := Runs.earlier (heq ▸ h)
    exact (Runs.look_of_polled (heq ▸ h)).trans ((Runs.rows hm).look_answered hmem hc)
  · obtain ⟨m, hm⟩ := Runs.earlier (heq ▸ h)
    exact (Runs.look_of_polled (heq ▸ h)).trans ((Runs.rows hm).look_collected hmem)
  · exact (Runs.look_of_polled (heq ▸ h)).trans (look_refused hmem)
  · exact executed_of_look (Runs.look_of_polled (heq ▸ h)).symm
  · exact hgo.alike (hs.alike_of_abandoned hr).symm
  · have hless := hgo.burden hall
    omega
  · refine hr.of_burden ?_
    by_contra hburden
    obtain ⟨report, q, hs, hb⟩ := exists_step_of_burden (Nat.pos_of_ne_zero hburden) ⟨"", 0⟩
    rw [hstuck report q hs] at hb
    cases hb

end

/-- **What a worker's clients may rely on.** Whatever is done to a service whose row has room is a
    run of steps, and every run, in any order of the steps, keeps to the protocol. -/
theorem worker_protocol {capacity : Nat} (hc : 0 < capacity) :
    (∀ operations, Runs capacity ((Service.beginning capacity).reportsAll operations)
      ((Service.beginning capacity).performAll operations).parties)
    ∧ ∀ reports p, Runs capacity reports p → Protocol capacity reports p :=
  ⟨fun operations => runs_performAll hc operations, fun _ _ h => Runs.protocol h⟩

/-- Three requests to a row with room for one; the second is abandoned, the third is refused. -/
def threeRequests : List Operation :=
  [.send .query "A?", .send .command "B", .send .query "C?", .poll 0, .answer ⟨"a", 0⟩, .poll 0,
    .poll 0, .poll 2, .abandon 1, .close]

/-- What is told of them. -/
def threeRequestsTold : List Report :=
  [.accepted ⟨0, .query, "A?"⟩, .begun ⟨0, .query, "A?"⟩, .accepted ⟨1, .command, "B"⟩,
    .refused ⟨2, .query, "C?"⟩, .polled 0 .pending, .executed ⟨0, .query, "A?"⟩ ⟨"a", 0⟩ true,
    .begun ⟨1, .command, "B"⟩, .polled 0 (.response ⟨"a", 0⟩),
    .polled 0 (.failed .resultUnavailable), .polled 2 (.failed .resultUnavailable), .abandoned 1,
    .dismissed, .executed ⟨1, .command, "B"⟩ Service.dismissal false, .ended]

theorem worker_protocol_three_requests :
    0 < 1 ∧ (Service.beginning 1).reportsAll threeRequests = threeRequestsTold
      ∧ ∃ p, Runs 1 threeRequestsTold p ∧ Protocol 1 threeRequestsTold p := by
  obtain ⟨hruns, hprotocol⟩ := worker_protocol (by decide : 0 < 1)
  have htold : (Service.beginning 1).reportsAll threeRequests = threeRequestsTold := rfl
  have hrun := hruns threeRequests
  rw [htold] at hrun
  exact ⟨by decide, htold, _, hrun, hprotocol _ _ hrun⟩

end InstrumentFlow.Scpi
