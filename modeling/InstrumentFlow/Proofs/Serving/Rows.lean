import InstrumentFlow.Proofs.Serving.Account

/-!
# The row of a worker

* `Rows` -- the parties agree with their history: what was accepted is executed, being executed or
  in the row, in this order;
* `Rows.accept`, `Rows.begin`, `Rows.respond`, ... -- they agree after each kind of step;
* `Step.rows`, `Runs.rows` -- each step keeps that, so every run has it;
* `Runs.look_of_polled` -- a poll shows how far the history is with the transaction;
* `Parties.burden` -- how many steps the worker has to make; each of its steps makes that less, and
  it can make one as long as there are any.
-/

namespace InstrumentFlow.Scpi

/-! ## 1. What every run keeps -/

/-- **The parties agree with their history.** -/
structure Rows (capacity : Nat) (reports : List Report) (p : Parties) : Prop where
  books : Books reports p.ledger
  /-- What was accepted was handed to the instrument or stands in the row. -/
  order : begun reports ++ p.row = accepted reports
  /-- What the instrument was handed is executed or being executed. -/
  service : executed reports ++ p.current = begun reports
  known : ∀ n, .abandoned n ∈ reports → n < p.ledger.outcomes.size
  held : ∀ n, n ∈ p.held ↔ n < p.ledger.outcomes.size ∧ .abandoned n ∉ reports
  room : ∀ w, p.worker = some w → w.capacity = capacity ∧ w.waiting.length ≤ capacity
  closing : .dismissed ∈ reports → p.closing = true
  gone : p.worker = none ↔ .ended ∈ reports

section

variable {capacity : Nat} {reports : List Report} {p p' : Parties} {report : Report}

theorem row_of_worker {w : Worker} (h : p.worker = some w) : p.row = w.waiting := by
  unfold Parties.row
  rw [h]
  rfl

theorem current_of_worker {w : Worker} (h : p.worker = some w) :
    p.current = w.inService.toList := by
  unfold Parties.current
  rw [h]
  rfl

theorem rows_beginning (capacity : Nat) : Rows capacity [] (.beginning capacity) where
  books := .start
  order := rfl
  service := rfl
  known _ h := nomatch h
  held n := ⟨fun h => (nomatch h), fun h => (nomatch h.1)⟩
  room w h := by
    obtain rfl := Option.some.inj h
    exact ⟨rfl, Nat.zero_le _⟩
  closing h := nomatch h
  gone := ⟨fun h => (nomatch h), fun h => (nomatch h)⟩

/-- The request that is being executed was accepted and not executed before. -/
theorem Rows.current_spec (h : Rows capacity reports p) {w : Worker} {r : Request}
    (hw : p.worker = some w) (hi : w.inService = some r) :
    r ∈ accepted reports ∧ ∀ r' ∈ executed reports, r'.transaction < r.transaction := by
  have hservice := h.service
  rw [current_of_worker hw, hi, Option.toList_some] at hservice
  have hnumbers := h.books.numbers
  rw [← h.order, ← hservice, List.pairwise_append] at hnumbers
  refine ⟨?_, fun r' hr' => ?_⟩
  · rw [← h.order, ← hservice]
    simp
  · exact (List.pairwise_append.mp hnumbers.1).2.2 r' hr' r (List.mem_singleton_self r)

/-- A new transaction is held. -/
theorem Rows.held_send (hr : Rows capacity reports p) (hn : ∀ n, report ≠ .abandoned n) (n : Nat) :
    n ∈ p.held ++ [p.ledger.outcomes.size]
      ↔ n < p.ledger.outcomes.size + 1 ∧ .abandoned n ∉ reports ++ [report] := by
  have hreport : Report.abandoned n ∉ reports ++ [report] ↔ .abandoned n ∉ reports := by
    simp [Ne.symm (hn n)]
  rw [hreport, List.mem_append, hr.held, List.mem_singleton]
  constructor
  · intro h
    rcases h with h | rfl
    · exact ⟨Nat.lt_succ_of_lt h.1, h.2⟩
    · exact ⟨Nat.lt_succ_self _, fun h => Nat.lt_irrefl _ (hr.known _ h)⟩
  · intro h
    by_cases hnew : n = p.ledger.outcomes.size
    · exact Or.inr hnew
    · exact Or.inl ⟨by omega, h.2⟩

variable (report) in
/-- A step that is no business of the clients leaves them as they are. -/
theorem Rows.clients (hr : Rows capacity reports p) (hn : ∀ n, report ≠ .abandoned n) :
    (∀ n, .abandoned n ∈ reports ++ [report] → n < p.ledger.outcomes.size)
    ∧ ∀ n, n ∈ p.held
      ↔ n < p.ledger.outcomes.size ∧ .abandoned n ∉ reports ++ [report] := by
  have hreport (n : Nat) : Report.abandoned n ∈ reports ++ [report] ↔ .abandoned n ∈ reports := by
    simp [Ne.symm (hn n)]
  refine ⟨fun n h => hr.known n ((hreport n).mp h), fun n => ?_⟩
  rw [hreport]
  exact hr.held n

variable (report) in
/-- A step that is no business of the worker leaves its requests as they are. -/
theorem Rows.requests (hr : Rows capacity reports p) (ha : report.accepted? = none)
    (hb : report.begun? = none) (he : report.executed? = none) :
    begun (reports ++ [report]) ++ p.row = accepted (reports ++ [report])
      ∧ executed (reports ++ [report]) ++ p.current = begun (reports ++ [report]) := by
  rw [begun_concat, accepted_concat, executed_concat, ha, hb, he]
  simpa using ⟨hr.order, hr.service⟩

variable (report) in
/-- A step that neither dismisses the worker nor ends it leaves both as they are. -/
theorem Rows.standing (hr : Rows capacity reports p) (hd : report ≠ .dismissed)
    (he : report ≠ .ended) {worker : Option Worker} (hw : worker = none ↔ p.worker = none) :
    (.dismissed ∈ reports ++ [report] → p.closing = true)
    ∧ (worker = none ↔ .ended ∈ reports ++ [report]) := by
  have hdismissed : Report.dismissed ∈ reports ++ [report] ↔ .dismissed ∈ reports := by
    simp [Ne.symm hd]
  have hended : Report.ended ∈ reports ++ [report] ↔ .ended ∈ reports := by
    simp [Ne.symm he]
  rw [hdismissed, hended, hw]
  exact ⟨hr.closing, hr.gone⟩

section

variable {w : Worker}

/-- A worker that is replaced by another one is there before and after. -/
theorem replaced_iff (hw : p.worker = some w) (w' : Worker) :
    some w' = none ↔ p.worker = none := by
  rw [hw]
  simp

theorem Rows.accept (hr : Rows capacity reports p) (hw : p.worker = some w)
    (hroom : w.waiting.length < w.capacity) (kind : RequestKind) (text : String) :
    Rows capacity (reports ++ [.accepted (p.request kind text)]) { p with
      ledger := p.ledger.start.2
      held := p.held ++ [p.ledger.start.1]
      worker := some { w with waiting := w.waiting ++ [p.request kind text] } } := by
  have hsize : p.ledger.start.2.outcomes.size = p.ledger.outcomes.size + 1 := p.ledger.size_start
  obtain ⟨hclosing, hgone⟩ := hr.standing (.accepted (p.request kind text))
    (fun h => nomatch h) (fun h => nomatch h) (replaced_iff hw _)
  refine ⟨hr.books.accept kind text, ?_, ?_, fun n hn => ?_, fun n => ?_, fun w' hw' => ?_,
    hclosing, hgone⟩
  · rw [begun_concat, accepted_concat, ← hr.order, row_of_worker hw]
    simp [Report.begun?, Report.accepted?, Parties.row]
  · rw [executed_concat, begun_concat, ← hr.service, current_of_worker hw]
    simp [Report.executed?, Report.begun?, Parties.current]
  · rw [hsize]
    exact Nat.lt_succ_of_lt (hr.known n (by simpa using hn))
  · rw [hsize]
    exact hr.held_send (by simp) n
  · obtain rfl := Option.some.inj hw'
    obtain ⟨hcapacity, _⟩ := hr.room w hw
    refine ⟨hcapacity, ?_⟩
    rw [List.length_append, ← hcapacity]
    exact hroom

theorem Rows.refuse (hr : Rows capacity reports p) (kind : RequestKind) (text : String) :
    Rows capacity (reports ++ [.refused (p.request kind text)]) { p with
      ledger := p.ledger.start.2.close p.ledger.start.1
      held := p.held ++ [p.ledger.start.1] } := by
  have hsize : (p.ledger.start.2.close p.ledger.start.1).outcomes.size
      = p.ledger.outcomes.size + 1 := (Ledger.size_close _ _).trans p.ledger.size_start
  obtain ⟨horder, hservice⟩ := hr.requests (.refused (p.request kind text)) rfl rfl rfl
  obtain ⟨hclosing, hgone⟩ := hr.standing (.refused (p.request kind text))
    (fun h => nomatch h) (fun h => nomatch h) Iff.rfl
  refine ⟨hr.books.refuse kind text, horder, hservice, fun n hn => ?_, fun n => ?_, hr.room,
    hclosing, hgone⟩
  · rw [hsize]
    exact Nat.lt_succ_of_lt (hr.known n (by simpa using hn))
  · rw [hsize]
    exact hr.held_send (by simp) n

theorem Rows.begin (hr : Rows capacity reports p) {r : Request} {waiting : List Request}
    (hw : p.worker = some w) (hi : w.inService = none) (hrow : w.waiting = r :: waiting) :
    Rows capacity (reports ++ [.begun r])
      { p with worker := some { w with inService := some r, waiting } } := by
  obtain ⟨hknown, hheld⟩ := hr.clients (.begun r) fun _ h => (nomatch h)
  obtain ⟨hclosing, hgone⟩ := hr.standing (.begun r) (fun h => nomatch h)
    (fun h => nomatch h) (replaced_iff hw _)
  refine ⟨hr.books.pass (fun _ => ⟨rfl, rfl, rfl⟩) rfl, ?_, ?_, hknown, hheld, fun w' hw' => ?_,
    hclosing, hgone⟩
  · rw [begun_concat, accepted_concat, ← hr.order, row_of_worker hw, hrow]
    simp [Report.begun?, Report.accepted?, Parties.row]
  · have hservice := hr.service
    rw [current_of_worker hw, hi] at hservice
    rw [executed_concat, begun_concat, ← hservice]
    simp [Report.executed?, Report.begun?, Parties.current]
  · obtain rfl := Option.some.inj hw'
    obtain ⟨hcapacity, hlength⟩ := hr.room w hw
    rw [hrow] at hlength
    exact ⟨hcapacity, Nat.le_of_succ_le hlength⟩

theorem Rows.respond (hr : Rows capacity reports p) {r : Request} (hw : p.worker = some w)
    (hi : w.inService = some r) (response : Response) :
    Rows capacity (reports ++ [.executed r response (decide (r.transaction ∈ p.held))]) { p with
      ledger := p.ledger.answer r.transaction response
      worker := some { w with inService := none } } := by
  obtain ⟨hknown, hheld⟩ := hr.clients
    (.executed r response (decide (r.transaction ∈ p.held))) fun _ h => (nomatch h)
  obtain ⟨hclosing, hgone⟩ := hr.standing
    (.executed r response (decide (r.transaction ∈ p.held))) (fun h => nomatch h)
    (fun h => nomatch h) (replaced_iff hw _)
  obtain ⟨hacc, hlast⟩ := hr.current_spec hw hi
  have hsize := p.ledger.size_answer r.transaction response
  refine ⟨hr.books.respond hacc (fun r' hr' => Nat.ne_of_lt (hlast r' hr')) response _, ?_, ?_,
    hsize ▸ hknown, hsize ▸ hheld, fun w' hw' => ?_, hclosing, hgone⟩
  · rw [begun_concat, accepted_concat, ← hr.order, row_of_worker hw]
    simp [Report.begun?, Report.accepted?, Parties.row]
  · rw [executed_concat, begun_concat, ← hr.service, current_of_worker hw, hi]
    simp [Report.executed?, Report.begun?, Parties.current]
  · obtain rfl := Option.some.inj hw'
    exact hr.room w hw

theorem Rows.poll (hr : Rows capacity reports p) {n : Nat} (hh : n ∈ p.held) :
    Rows capacity (reports ++ [.polled n (p.toService.poll n).1])
      { p with toService := (p.toService.poll n).2 } := by
  have hlt := ((hr.held n).mp hh).1
  have hlook := Service.poll_fst hh (hr.books.outcome n hlt)
  obtain ⟨hknown, hheld⟩ := hr.clients (.polled n (p.toService.poll n).1) fun _ h => (nomatch h)
  obtain ⟨horder, hservice⟩ := hr.requests (.polled n (p.toService.poll n).1) rfl rfl rfl
  obtain ⟨hclosing, hgone⟩ := hr.standing (.polled n (p.toService.poll n).1)
    (fun h => nomatch h) (fun h => nomatch h) Iff.rfl
  have hsize := p.ledger.size_poll n
  rw [Service.poll_snd p.toService hh]
  refine ⟨?_, horder, hservice, hsize ▸ hknown, hsize ▸ hheld, hr.room, hclosing, hgone⟩
  rw [hlook]
  exact hr.books.poll hlt

theorem Rows.abandon (hr : Rows capacity reports p) {n : Nat} (hh : n ∈ p.held) :
    Rows capacity (reports ++ [.abandoned n])
      { p with toService := (p.toService.abandon n).2 } := by
  have hlt := ((hr.held n).mp hh).1
  obtain ⟨horder, hservice⟩ := hr.requests (.abandoned n) rfl rfl rfl
  obtain ⟨hclosing, hgone⟩ := hr.standing (.abandoned n) (fun h => nomatch h)
    (fun h => nomatch h) Iff.rfl
  refine ⟨hr.books.pass (fun _ => ⟨rfl, rfl, rfl⟩) rfl, horder, hservice, fun m hm => ?_,
    fun m => ?_, hr.room, hclosing, hgone⟩
  · rcases List.mem_append.mp hm with hm | hm
    · exact hr.known m hm
    · rw [Report.abandoned.inj (List.mem_singleton.mp hm)]
      exact hlt
  · have hmem : m ∈ p.held.filter (· != n) ↔ m ∈ p.held ∧ m ≠ n := by
      rw [List.mem_filter, bne_iff_ne]
    show m ∈ p.held.filter (· != n) ↔ m < p.ledger.outcomes.size ∧ _
    rw [hmem, hr.held]
    simp [and_assoc]

theorem Rows.dismiss (hr : Rows capacity reports p) :
    Rows capacity (reports ++ [.dismissed]) { p with closing := true } := by
  obtain ⟨hknown, hheld⟩ := hr.clients .dismissed fun _ h => (nomatch h)
  obtain ⟨horder, hservice⟩ := hr.requests .dismissed rfl rfl rfl
  refine ⟨hr.books.pass (fun _ => ⟨rfl, rfl, rfl⟩) rfl, horder, hservice, hknown, hheld, hr.room,
    fun _ => rfl, ?_⟩
  simpa using hr.gone

theorem Rows.leave (hr : Rows capacity reports p) (hw : p.worker = some w)
    (hc : p.closing = true) (hi : w.inService = none) (hrow : w.waiting = []) :
    Rows capacity (reports ++ [.ended]) { p with worker := none } := by
  obtain ⟨hknown, hheld⟩ := hr.clients .ended fun _ h => (nomatch h)
  refine ⟨hr.books.pass (fun _ => ⟨rfl, rfl, rfl⟩) rfl, ?_, ?_, hknown, hheld,
    fun _ h => (nomatch h), fun _ => hc, ?_⟩
  · have horder := hr.order
    rw [row_of_worker hw, hrow] at horder
    rw [begun_concat, accepted_concat, ← horder]
    simp [Report.begun?, Report.accepted?, Parties.row]
  · have hservice := hr.service
    rw [current_of_worker hw, hi] at hservice
    rw [executed_concat, begun_concat, ← hservice]
    simp [Report.executed?, Report.begun?, Parties.current]
  · simp

end

/-- **Each step keeps it** that the parties agree with their history. -/
theorem Step.rows (h : Step p report p') (hr : Rows capacity reports p) :
    Rows capacity (reports ++ [report]) p' := by
  cases h with
  | accept hw _ hroom kind text => exact hr.accept hw hroom kind text
  | refuse _ _ _ kind text => exact hr.refuse kind text
  | begin hw hi hrow => exact hr.begin hw hi hrow
  | respond hw hi response => exact hr.respond hw hi response
  | poll hh => exact hr.poll hh
  | abandon hh => exact hr.abandon hh
  | dismiss _ _ => exact hr.dismiss
  | leave hw hc hi hrow => exact hr.leave hw hc hi hrow

theorem Goes.rows {q : Parties} {more : List Report} (h : Goes p more q)
    (hr : Rows capacity reports p) : Rows capacity (reports ++ more) q := by
  induction h with
  | start => rwa [List.append_nil]
  | step _ hs ih =>
    rw [← List.append_assoc]
    exact hs.rows ih

/-- **In every run** the parties agree with their history. -/
theorem Runs.rows (h : Runs capacity reports p) : Rows capacity reports p :=
  Goes.rows h (rows_beginning capacity)

/-! ## 2. What is told of single steps -/

/-- **A poll shows how far the history is** with the transaction. -/
theorem Runs.look_of_polled {earlier later : List Report} {n : Nat} {look : Look}
    (h : Runs capacity (earlier ++ .polled n look :: later) p) :
    look = (outcomeIn earlier n).look := by
  obtain ⟨m, m', hm, hs, _⟩ := Goes.split_step h
  have hr := Runs.rows hm
  cases hs with
  | poll hh => exact Service.poll_fst hh (hr.books.outcome n ((hr.held n).mp hh).1)

/-- A request is refused if and only if the row is full. -/
theorem Runs.length_of_refused {earlier later : List Report} {r : Request}
    (h : Runs capacity (earlier ++ .refused r :: later) p) :
    (accepted earlier).length = (begun earlier).length + capacity := by
  obtain ⟨m, m', hm, hs, _⟩ := Goes.split_step h
  have hr := Runs.rows hm
  cases hs with
  | refuse hw ho hfull =>
    obtain ⟨hcapacity, hlength⟩ := hr.room _ hw
    rw [← hr.order, row_of_worker hw, List.length_append]
    omega

theorem Runs.length_of_accepted {earlier later : List Report} {r : Request}
    (h : Runs capacity (earlier ++ .accepted r :: later) p) :
    (accepted earlier).length < (begun earlier).length + capacity := by
  obtain ⟨m, m', hm, hs, _⟩ := Goes.split_step h
  have hr := Runs.rows hm
  cases hs with
  | accept hw ho hroom =>
    obtain ⟨hcapacity, _⟩ := hr.room _ hw
    rw [← hr.order, row_of_worker hw, List.length_append]
    omega

/-- When the worker has come to its end, it has executed all that was accepted. -/
theorem Runs.executed_of_ended {earlier later : List Report}
    (h : Runs capacity (earlier ++ .ended :: later) p) : executed earlier = accepted earlier := by
  obtain ⟨m, m', hm, hs, _⟩ := Goes.split_step h
  have hr := Runs.rows hm
  cases hs with
  | leave hw hc hi hrow =>
    rw [← hr.order, ← hr.service, current_of_worker hw, row_of_worker hw, hi, hrow]
    simp

/-- Without a worker no request is accepted and none executed. -/
theorem Goes.worker_none {q : Parties} {more : List Report} (h : Goes p more q)
    (hw : p.worker = none) :
    q.worker = none ∧ accepted more = [] ∧ begun more = [] ∧ executed more = [] := by
  induction h with
  | start => exact ⟨hw, rfl, rfl, rfl⟩
  | @step more m m' report _ hs ih =>
    obtain ⟨hm, ha, hb, he⟩ := ih
    rw [accepted_concat, begun_concat, executed_concat, ha, hb, he]
    cases hs with
    | poll hh => exact ⟨(Service.poll_snd m.toService hh) ▸ hm, rfl, rfl, rfl⟩
    | abandon hh => exact ⟨hm, rfl, rfl, rfl⟩
    | leave hw' => rw [hm] at hw'; cases hw'
    | accept hw' | refuse hw' | begin hw' | respond hw' | dismiss hw' => rw [hm] at hw'; cases hw'

/-! ## 3. The end of a worker -/

/-- The steps that the worker makes by itself. -/
def Report.byWorker : Report → Bool
  | begun _ | executed .. | ended => true
  | _ => false

/-- **How many steps the worker has to make.** -/
def Parties.burden (p : Parties) : Nat :=
  2 * p.row.length + p.current.length + if p.worker.isSome && p.closing then 1 else 0

theorem burden_of_worker {w : Worker} (h : p.worker = some w) :
    p.burden = 2 * w.waiting.length + w.inService.toList.length + if p.closing then 1 else 0 := by
  unfold Parties.burden
  rw [row_of_worker h, current_of_worker h, h]
  rfl

/-- Each step of the worker leaves one less. -/
theorem Step.burden (h : Step p report p') (hb : report.byWorker = true) :
    p'.burden + 1 = p.burden := by
  cases h with
  | begin hw hi hrow =>
    rw [burden_of_worker hw, burden_of_worker rfl, hi, hrow]
    simp only [Option.toList_some, Option.toList_none, List.length_cons, List.length_nil]
    omega
  | respond hw hi =>
    rw [burden_of_worker hw, burden_of_worker rfl, hi]
    simp only [Option.toList_some, Option.toList_none, List.length_cons, List.length_nil]
    omega
  | leave hw hc hi hrow =>
    rw [burden_of_worker hw, hi, hrow, hc]
    rfl
  | accept | refuse | poll | abandon | dismiss => cases hb

/-- As long as there are any, the worker can make a step. -/
theorem exists_step_of_burden (h : 0 < p.burden) (response : Response) :
    ∃ report p', Step p report p' ∧ report.byWorker = true := by
  cases hw : p.worker with
  | none =>
    have hnone : p.burden = 0 := by
      unfold Parties.burden Parties.row Parties.current
      rw [hw]
      rfl
    omega
  | some w =>
    rw [burden_of_worker hw] at h
    cases hi : w.inService with
    | some r => exact ⟨_, _, .respond hw hi response, rfl⟩
    | none =>
      cases hrow : w.waiting with
      | cons r waiting => exact ⟨_, _, .begin hw hi hrow, rfl⟩
      | nil =>
        rw [hi, hrow] at h
        cases hc : p.closing with
        | true => exact ⟨_, _, .leave hw hc hi hrow, rfl⟩
        | false => simp [hc] at h

theorem Goes.burden {q : Parties} {more : List Report} (h : Goes p more q)
    (hb : more.all Report.byWorker = true) : q.burden + more.length = p.burden := by
  induction h with
  | start => rfl
  | step _ hs ih =>
    rw [List.all_append, Bool.and_eq_true] at hb
    obtain ⟨hmore, hlast⟩ := hb
    have hstep := hs.burden (by simpa using hlast)
    have hrest := ih hmore
    rw [List.length_append, List.length_singleton]
    omega

/-- With no step left all accepted requests are executed, and a dismissed worker is gone. -/
theorem Rows.of_burden (h : Rows capacity reports p) (hb : p.burden = 0) :
    executed reports = accepted reports ∧ (p.closing = true → p.worker = none) := by
  have horder := h.order
  have hservice := h.service
  unfold Parties.burden at hb
  have hrow : p.row = [] := List.length_eq_zero_iff.mp (by omega)
  have hcurrent : p.current = [] := List.length_eq_zero_iff.mp (by omega)
  rw [hrow, List.append_nil] at horder
  rw [hcurrent, List.append_nil] at hservice
  refine ⟨hservice.trans horder, fun hc => ?_⟩
  cases hw : p.worker with
  | none => rfl
  | some w => simp [hw, hc] at hb

end

end InstrumentFlow.Scpi
