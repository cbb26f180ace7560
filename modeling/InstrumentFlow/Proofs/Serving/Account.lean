import InstrumentFlow.Scpi.Worker
import Mathlib.Data.List.Basic

/-!
# Clients and worker, and what is told of them

Clients send requests into a bounded row and poll for their answers, the worker takes one request
after the other out of the row and has it executed, and at some time it is dismissed. Each of these
doings is one step, and they come in any order in which they can. What was told of the steps says how
far each request is.

* `Report` -- what is told of a step;
* `Parties`, `Step` -- a service that may be about to close; its steps;
* `Goes`, `Runs` -- steps in a row, from any state and from the beginning;
* `Goes.trans`, `Goes.split`, `Goes.split_step` -- rows of steps are put together and cut;
* `accepted`, `begun`, `executed` -- the requests of a history, in order;
* `Report.refuses`, `answer?`, `collects` -- what a report tells of one transaction;
* `outcomeIn`, `Outcome.look` -- how far a transaction is after a history, and what a poll shows of
  that;
* `Ledger.poll_spec`, ... -- what becomes of transactions in a ledger;
* `Books` -- a ledger agrees with a history; one lemma for each kind of report keeps that.
-/

namespace InstrumentFlow.Scpi

/-! ## 1. Steps -/

/-- What is told of a step. -/
inductive Report where
  | accepted (r : Request)
  | refused (r : Request)
  /-- The worker took a request out of the row and hands it to the instrument. -/
  | begun (r : Request)
  /-- The instrument has executed a request, and the worker answers; `heard` tells whether somebody
      still waits for that. -/
  | executed (r : Request) (response : Response) (heard : Bool)
  | polled (transaction : Nat) (look : Look)
  | abandoned (transaction : Nat)
  /-- The row takes no more requests. -/
  | dismissed
  /-- The worker has come to its end, and whoever dismissed it goes on. -/
  | ended

/-- **A service and its clients at one moment.** -/
structure Parties extends Service where
  /-- The worker is dismissed and finishes what it accepted. -/
  closing : Bool := false

namespace Parties

/-- The request that is sent next. -/
def request (p : Parties) (kind : RequestKind) (text : String) : Request :=
  ⟨p.ledger.outcomes.size, kind, text⟩

/-- The requests in the row. -/
def row (p : Parties) : List Request := (p.worker.map Worker.waiting).getD []

/-- The request that is being executed, if there is one. -/
def current (p : Parties) : List Request := ((p.worker.map Worker.inService).join).toList

end Parties

/-- **One step**, in which the instrument may respond to a request in any way. -/
inductive Step (p : Parties) : Report → Parties → Prop
  /-- A request is sent and finds room in the row. -/
  | accept {w : Worker} (hw : p.worker = some w) (ho : p.closing = false)
      (hr : w.waiting.length < w.capacity) (kind : RequestKind) (text : String) :
      Step p (.accepted (p.request kind text)) { p with
        ledger := p.ledger.start.2
        held := p.held ++ [p.ledger.start.1]
        worker := some { w with waiting := w.waiting ++ [p.request kind text] } }
  /-- A request is sent and finds no room. -/
  | refuse {w : Worker} (hw : p.worker = some w) (ho : p.closing = false)
      (hr : w.capacity ≤ w.waiting.length) (kind : RequestKind) (text : String) :
      Step p (.refused (p.request kind text)) { p with
        ledger := p.ledger.start.2.close p.ledger.start.1
        held := p.held ++ [p.ledger.start.1] }
  /-- The worker has nothing to do and takes the next request. -/
  | begin {w : Worker} {r : Request} {waiting : List Request} (hw : p.worker = some w)
      (hi : w.inService = none) (hr : w.waiting = r :: waiting) :
      Step p (.begun r) { p with worker := some { w with inService := some r, waiting } }
  /-- The worker answers the request that it has. The answer is sent and the responder dropped in
      one step, so that nobody looks in between; an instrument that brings the worker down instead
      of responding is left out. -/
  | respond {w : Worker} {r : Request} (hw : p.worker = some w) (hi : w.inService = some r)
      (response : Response) :
      Step p (.executed r response (decide (r.transaction ∈ p.held))) { p with
        ledger := p.ledger.answer r.transaction response
        worker := some { w with inService := none } }
  | poll {transaction : Nat} (hh : transaction ∈ p.held) :
      Step p (.polled transaction (p.toService.poll transaction).1)
        { p with toService := (p.toService.poll transaction).2 }
  | abandon {transaction : Nat} (hh : transaction ∈ p.held) :
      Step p (.abandoned transaction)
        { p with toService := (p.toService.abandon transaction).2 }
  | dismiss {w : Worker} (hw : p.worker = some w) (ho : p.closing = false) :
      Step p .dismissed { p with closing := true }
  /-- The row is empty and closed, and no request is being executed. -/
  | leave {w : Worker} (hw : p.worker = some w) (hc : p.closing = true)
      (hi : w.inService = none) (hr : w.waiting = []) : Step p .ended { p with worker := none }

/-! ## 2. Steps in a row -/

/-- **Steps in a row**, with what is told of them, the earliest first. -/
inductive Goes (p : Parties) : List Report → Parties → Prop
  | start : Goes p [] p
  | step {reports : List Report} {q q' : Parties} {report : Report} (h : Goes p reports q)
      (hs : Step q report q') : Goes p (reports ++ [report]) q'

/-- The parties before the first request. -/
def Parties.beginning (capacity : Nat) : Parties := { worker := some { capacity } }

/-- Steps in a row from the beginning. -/
abbrev Runs (capacity : Nat) : List Report → Parties → Prop := Goes (.beginning capacity)

namespace Goes

variable {p q q' : Parties} {reports more : List Report}

theorem single {report : Report} (h : Step p report q) : Goes p [report] q := .step .start h

theorem trans (h : Goes p reports q) (h' : Goes q more q') : Goes p (reports ++ more) q' := by
  induction h' with
  | start => rwa [List.append_nil]
  | step _ hs ih =>
    rw [← List.append_assoc]
    exact ih.step hs

/-- A row of steps is cut anywhere. -/
theorem split (h : Goes p (reports ++ more) q) : ∃ m, Goes p reports m ∧ Goes m more q := by
  generalize hall : reports ++ more = all at h
  induction h generalizing more with
  | start =>
    obtain ⟨rfl, rfl⟩ := List.append_eq_nil_iff.mp hall
    exact ⟨p, .start, .start⟩
  | @step earlier m m' report h hs ih =>
    rcases List.eq_nil_or_concat more with rfl | ⟨rest, last, rfl⟩
    · rw [List.append_nil] at hall
      exact ⟨m', hall ▸ h.step hs, .start⟩
    · rw [List.concat_eq_append, ← List.append_assoc] at hall
      obtain ⟨hrest, hlast⟩ := List.append_inj' hall rfl
      obtain ⟨n, hn, hm⟩ := ih hrest
      rw [List.concat_eq_append, List.singleton_inj.mp hlast]
      exact ⟨n, hn, hm.step hs⟩

theorem eq_of_nil (h : Goes p [] q) : q = p := by
  generalize hnil : [] = all at h
  cases h with
  | start => rfl
  | step => exact absurd hnil.symm (List.append_ne_nil_of_right_ne_nil _ (List.cons_ne_nil _ _))

theorem of_single {report : Report} (h : Goes p [report] q) : Step p report q := by
  generalize hall : [report] = all at h
  cases h with
  | start => cases hall
  | @step earlier m _ last h hs =>
    have hcut : [] ++ [report] = earlier ++ [last] := hall
    obtain ⟨hearlier, hlast⟩ := List.append_inj' hcut rfl
    rw [← hearlier] at h
    rw [← h.eq_of_nil, List.singleton_inj.mp hlast]
    exact hs

/-- A row of steps is cut before and after one of them. -/
theorem split_step {report : Report} (h : Goes p (reports ++ report :: more) q) :
    ∃ m m', Goes p reports m ∧ Step m report m' ∧ Goes m' more q := by
  obtain ⟨m, hm, h'⟩ := h.split
  have hrest : Goes m ([report] ++ more) q := h'
  obtain ⟨m', hone, h''⟩ := hrest.split
  exact ⟨m, m', hm, hone.of_single, h''⟩

end Goes

/-! ## 3. Histories -/

namespace Report

def accepted? : Report → Option Request
  | accepted r => some r
  | _ => none

def begun? : Report → Option Request
  | begun r => some r
  | _ => none

def executed? : Report → Option Request
  | executed r _ _ => some r
  | _ => none

/-- The answer to a transaction, if it is told of. -/
def answer? (transaction : Nat) : Report → Option Response
  | executed r response _ => if r.transaction = transaction then some response else none
  | _ => none

def refuses (transaction : Nat) : Report → Bool
  | refused r => r.transaction == transaction
  | _ => false

/-- The answer to a transaction is handed over. -/
def collects (transaction : Nat) : Report → Bool
  | polled n (.response _) => n == transaction
  | _ => false

end Report

/-- The requests that were accepted, in order. -/
def accepted (reports : List Report) : List Request := reports.filterMap Report.accepted?

/-- The requests that the instrument was handed, in order. -/
def begun (reports : List Report) : List Request := reports.filterMap Report.begun?

/-- The requests that the instrument has executed, in order. -/
def executed (reports : List Report) : List Request := reports.filterMap Report.executed?

/-- **How far a transaction is** after a history. -/
def outcomeIn (reports : List Report) (transaction : Nat) : Outcome :=
  if reports.any (Report.refuses transaction) then .closed
  else
    match reports.findSome? (Report.answer? transaction) with
    | none => .waiting
    | some r => if reports.any (Report.collects transaction) then .closed else .answered r

/-- What a poll shows of a transaction. -/
def Outcome.look : Outcome → Look
  | waiting => .pending
  | answered r => .response r
  | closed => .failed .resultUnavailable

/-- What a poll leaves of a transaction. -/
def Outcome.collected : Outcome → Outcome
  | answered _ => closed
  | o => o

section

variable {reports : List Report} {report : Report} {transaction : Nat}

theorem accepted_concat :
    accepted (reports ++ [report]) = accepted reports ++ report.accepted?.toList := by
  unfold accepted
  rw [List.filterMap_append]
  cases h : report.accepted? <;> simp [h]

theorem begun_concat : begun (reports ++ [report]) = begun reports ++ report.begun?.toList := by
  unfold begun
  rw [List.filterMap_append]
  cases h : report.begun? <;> simp [h]

theorem executed_concat :
    executed (reports ++ [report]) = executed reports ++ report.executed?.toList := by
  unfold executed
  rw [List.filterMap_append]
  cases h : report.executed? <;> simp [h]

/-- A report that tells nothing of a transaction. -/
def Report.Passes (report : Report) (transaction : Nat) : Prop :=
  report.refuses transaction = false ∧ report.answer? transaction = none
    ∧ report.collects transaction = false

theorem outcomeIn_of_passes (h : report.Passes transaction) :
    outcomeIn (reports ++ [report]) transaction = outcomeIn reports transaction := by
  obtain ⟨hr, ha, hc⟩ := h
  unfold outcomeIn
  simp [List.findSome?_append, hr, ha, hc]

/-- A transaction of which nothing was told yet waits. -/
theorem outcomeIn_of_all_pass (h : ∀ report ∈ reports, report.Passes transaction) :
    outcomeIn reports transaction = .waiting := by
  have hr : reports.any (Report.refuses transaction) = false := by
    rw [List.any_eq_false]
    exact fun report hmem => Bool.eq_false_iff.mp (h report hmem).1
  have ha : reports.findSome? (Report.answer? transaction) = none :=
    List.findSome?_eq_none_iff.mpr fun report hmem => (h report hmem).2.1
  unfold outcomeIn
  simp [hr, ha]

theorem outcomeIn_refused (reports : List Report) (r : Request) :
    outcomeIn (reports ++ [.refused r]) r.transaction = .closed := by
  unfold outcomeIn
  simp [Report.refuses]

theorem outcomeIn_polled (reports : List Report) (n : Nat) :
    outcomeIn (reports ++ [.polled n (outcomeIn reports n).look]) n
      = (outcomeIn reports n).collected := by
  unfold outcomeIn
  cases hr : reports.any (Report.refuses n) with
  | true => simp [hr, Outcome.collected]
  | false =>
    cases ha : reports.findSome? (Report.answer? n) with
    | none => simp [hr, ha, List.findSome?_append, Report.refuses, Report.answer?, Outcome.collected]
    | some r =>
      cases hc : reports.any (Report.collects n) with
      | true =>
        simp [hr, ha, hc, List.findSome?_append, Report.refuses, Outcome.collected]
      | false =>
        simp [hr, ha, hc, List.findSome?_append, Report.refuses, Report.collects, Outcome.look,
          Outcome.collected]

end

/-! ## 4. Ledgers -/

namespace Ledger

theorem outcome?_replace (l : Ledger) (n m : Nat) (o : Outcome) :
    (l.replace n o).outcome? m
      = if m = n ∧ n < l.outcomes.size then some o else l.outcome? m := by
  unfold replace outcome?
  by_cases hm : m = n
  · subst hm
    by_cases hlt : m < l.outcomes.size <;> simp [hlt]
  · simp [hm, Ne.symm hm]

theorem size_replace (l : Ledger) (n : Nat) (o : Outcome) :
    (l.replace n o).outcomes.size = l.outcomes.size := by
  unfold replace
  simp

theorem outcome?_start (l : Ledger) (m : Nat) :
    l.start.2.outcome? m = if m = l.outcomes.size then some .waiting else l.outcome? m := by
  unfold start outcome?
  exact Array.getElem?_push

theorem size_start (l : Ledger) : l.start.2.outcomes.size = l.outcomes.size + 1 := by
  unfold start
  simp

theorem lt_of_outcome? {l : Ledger} {n : Nat} {o : Outcome} (h : l.outcome? n = some o) :
    n < l.outcomes.size := (Array.getElem?_eq_some_iff.mp h).1

theorem size_close (l : Ledger) (n : Nat) : (l.close n).outcomes.size = l.outcomes.size := by
  unfold close
  split
  · exact l.size_replace n _
  · rfl

theorem size_answer (l : Ledger) (n : Nat) (r : Response) :
    (l.answer n r).outcomes.size = l.outcomes.size := by
  unfold answer
  split
  · exact l.size_replace n _
  · rfl

theorem size_poll (l : Ledger) (n : Nat) : (l.poll n).2.outcomes.size = l.outcomes.size := by
  unfold poll
  split
  · rfl
  · exact l.size_replace n _
  · rfl

/-- A new transaction that is given up at once. -/
theorem outcome?_start_close (l : Ledger) (m : Nat) :
    (l.start.2.close l.start.1).outcome? m
      = if m = l.outcomes.size then some .closed else l.outcome? m := by
  have hnew : l.start.2.outcome? l.start.1 = some .waiting := by
    rw [outcome?_start]
    exact if_pos rfl
  unfold close
  rw [hnew]
  dsimp only
  rw [outcome?_replace, outcome?_start, size_start]
  by_cases hm : m = l.outcomes.size
  · rw [if_pos ⟨hm, Nat.lt_succ_self _⟩, if_pos hm]
  · rw [if_neg (fun h => hm h.1), if_neg hm, if_neg hm]

theorem outcome?_answer {l : Ledger} {n : Nat} (h : l.outcome? n = some .waiting) (r : Response)
    (m : Nat) : (l.answer n r).outcome? m = if m = n then some (.answered r) else l.outcome? m := by
  unfold answer
  rw [h]
  dsimp only
  rw [outcome?_replace]
  simp [lt_of_outcome? h]

/-- **Asking for an answer** shows how far the transaction is, and collects its answer. -/
theorem poll_spec {l : Ledger} {n : Nat} {o : Outcome} (h : l.outcome? n = some o) (m : Nat) :
    (l.poll n).2.outcome? m = if m = n then some o.collected else l.outcome? m := by
  unfold poll
  rw [h]
  by_cases hm : m = n
  · subst hm
    cases o with
    | waiting | closed => simpa [Outcome.collected] using h
    | answered r => simp [outcome?_replace, lt_of_outcome? h, Outcome.collected]
  · cases o with
    | waiting | closed => simp [hm]
    | answered r => simp [outcome?_replace, hm]

end Ledger

theorem Service.poll_fst {s : Service} {n : Nat} {o : Outcome} (hh : n ∈ s.held)
    (ho : s.ledger.outcome? n = some o) : (s.poll n).1 = o.look := by
  unfold Service.poll Ledger.poll
  rw [if_pos hh, ho]
  cases o <;> rfl

theorem Service.poll_snd (s : Service) {n : Nat} (hh : n ∈ s.held) :
    (s.poll n).2 = { s with ledger := (s.ledger.poll n).2 } := by
  unfold Service.poll
  rw [if_pos hh]
  split <;> next h => rw [h]

/-! ## 5. Books -/

/-- **A ledger agrees with a history**: it has a transaction for each request that was sent, and each
    is as far as the history tells. -/
structure Books (reports : List Report) (l : Ledger) : Prop where
  numbers : (accepted reports).Pairwise fun r r' => r.transaction < r'.transaction
  accepted_lt : ∀ r ∈ accepted reports, r.transaction < l.outcomes.size
  /-- Nothing is told of transactions to come. -/
  passes : ∀ n, l.outcomes.size ≤ n → ∀ report ∈ reports, report.Passes n
  refused : ∀ r, .refused r ∈ reports → ∀ r' ∈ accepted reports, r'.transaction ≠ r.transaction
  /-- Only answers are collected that were given. -/
  given : ∀ n, reports.findSome? (Report.answer? n) = none →
    reports.any (Report.collects n) = false
  outcome : ∀ n, n < l.outcomes.size → l.outcome? n = some (outcomeIn reports n)

namespace Books

variable {reports : List Report} {l : Ledger}

theorem start : Books [] {} :=
  ⟨.nil, fun _ h => (nomatch h), fun _ _ _ h => (nomatch h), fun _ h => (nomatch h),
    fun _ _ => rfl, fun _ h => (nomatch h)⟩

variable (h : Books reports l)
include h

/-- A report that is not of transactions. -/
theorem pass {report : Report} (hp : ∀ n, report.Passes n) (ha : report.accepted? = none) :
    Books (reports ++ [report]) l := by
  have hacc : accepted (reports ++ [report]) = accepted reports := by
    rw [accepted_concat, ha, Option.toList_none, List.append_nil]
  refine ⟨hacc ▸ h.numbers, hacc ▸ h.accepted_lt, fun n hn x hx => ?_, fun r hr => ?_,
    fun n hn => ?_, fun n hn => ?_⟩
  · rcases List.mem_append.mp hx with hx | hx
    · exact h.passes n hn x hx
    · exact List.mem_singleton.mp hx ▸ hp n
  · rw [hacc]
    rcases List.mem_append.mp hr with hr | hr
    · exact h.refused r hr
    · have hpass := (hp r.transaction).1
      rw [← List.mem_singleton.mp hr] at hpass
      simp [Report.refuses] at hpass
  · rw [List.findSome?_append, Option.or_eq_none_iff] at hn
    rw [List.any_append, h.given n hn.1, List.any_cons, (hp n).2.2]
    rfl
  · rw [outcomeIn_of_passes (hp n)]
    exact h.outcome n hn

/-- A request finds room. -/
theorem accept (kind : RequestKind) (text : String) :
    Books (reports ++ [.accepted ⟨l.outcomes.size, kind, text⟩]) l.start.2 := by
  have hacc : accepted (reports ++ [.accepted ⟨l.outcomes.size, kind, text⟩])
      = accepted reports ++ [⟨l.outcomes.size, kind, text⟩] := accepted_concat
  have hp (n : Nat) : (Report.accepted ⟨l.outcomes.size, kind, text⟩).Passes n := ⟨rfl, rfl, rfl⟩
  refine ⟨?_, fun r hr => ?_, fun n hn x hx => ?_, fun r hr r' hr' => ?_, fun n hn => ?_,
    fun n hn => ?_⟩
  · rw [hacc, List.pairwise_append]
    refine ⟨h.numbers, List.pairwise_singleton _ _, fun r hr r' hr' => ?_⟩
    rw [List.mem_singleton.mp hr']
    exact h.accepted_lt r hr
  · rw [Ledger.size_start]
    rw [hacc] at hr
    rcases List.mem_append.mp hr with hr | hr
    · exact Nat.lt_succ_of_lt (h.accepted_lt r hr)
    · rw [List.mem_singleton.mp hr]
      exact Nat.lt_succ_self _
  · rw [Ledger.size_start] at hn
    rcases List.mem_append.mp hx with hx | hx
    · exact h.passes n (by omega) x hx
    · exact List.mem_singleton.mp hx ▸ hp n
  · have hr : .refused r ∈ reports := by simpa using hr
    rw [hacc] at hr'
    rcases List.mem_append.mp hr' with hr' | hr'
    · exact h.refused r hr r' hr'
    · rw [List.mem_singleton.mp hr']
      intro heq
      have hpass := (h.passes r.transaction (Nat.le_of_eq heq) _ hr).1
      simp [Report.refuses] at hpass
  · rw [List.findSome?_append, Option.or_eq_none_iff] at hn
    rw [List.any_append, h.given n hn.1]
    rfl
  · rw [outcomeIn_of_passes (hp n), Ledger.outcome?_start]
    by_cases hnew : n = l.outcomes.size
    · rw [if_pos hnew, outcomeIn_of_all_pass (h.passes n (Nat.le_of_eq hnew.symm))]
    · rw [Ledger.size_start] at hn
      rw [if_neg hnew]
      exact h.outcome n (by omega)

/-- A request finds no room. -/
theorem refuse (kind : RequestKind) (text : String) :
    Books (reports ++ [.refused ⟨l.outcomes.size, kind, text⟩])
      (l.start.2.close l.start.1) := by
  have hacc : accepted (reports ++ [.refused ⟨l.outcomes.size, kind, text⟩])
      = accepted reports := by
    rw [accepted_concat]
    exact List.append_nil _
  have hp (n : Nat) (hn : n ≠ l.outcomes.size) :
      (Report.refused ⟨l.outcomes.size, kind, text⟩).Passes n := by
    refine ⟨?_, rfl, rfl⟩
    simpa [Report.refuses] using Ne.symm hn
  have hsize : (l.start.2.close l.start.1).outcomes.size = l.outcomes.size + 1 :=
    (Ledger.size_close _ _).trans l.size_start
  refine ⟨hacc ▸ h.numbers, fun r hr => ?_, fun n hn x hx => ?_, fun r hr => ?_, fun n hn => ?_,
    fun n hn => ?_⟩
  · rw [hacc] at hr
    rw [hsize]
    exact Nat.lt_succ_of_lt (h.accepted_lt r hr)
  · rw [hsize] at hn
    rcases List.mem_append.mp hx with hx | hx
    · exact h.passes n (by omega) x hx
    · exact List.mem_singleton.mp hx ▸ hp n (by omega)
  · rw [hacc]
    rcases List.mem_append.mp hr with hr | hr
    · exact h.refused r hr
    · obtain rfl := Report.refused.inj (List.mem_singleton.mp hr)
      exact fun r' hr' => Nat.ne_of_lt (h.accepted_lt r' hr')
  · rw [List.findSome?_append, Option.or_eq_none_iff] at hn
    rw [List.any_append, h.given n hn.1]
    rfl
  · rw [Ledger.outcome?_start_close]
    by_cases hnew : n = l.outcomes.size
    · rw [if_pos hnew, hnew]
      exact congrArg some (outcomeIn_refused reports ⟨l.outcomes.size, kind, text⟩).symm
    · rw [hsize] at hn
      rw [if_neg hnew, outcomeIn_of_passes (hp n hnew)]
      exact h.outcome n (by omega)

/-- A request that was accepted and not executed is executed. -/
theorem respond {r : Request} (hr : r ∈ accepted reports)
    (hn : ∀ r' ∈ executed reports, r'.transaction ≠ r.transaction) (response : Response)
    (heard : Bool) :
    Books (reports ++ [.executed r response heard]) (l.answer r.transaction response) := by
  have hacc : accepted (reports ++ [.executed r response heard]) = accepted reports := by
    rw [accepted_concat]
    exact List.append_nil _
  have hp (n : Nat) (hne : n ≠ r.transaction) : (Report.executed r response heard).Passes n :=
    ⟨rfl, if_neg hne.symm, rfl⟩
  have hlt := h.accepted_lt r hr
  -- nothing is told of the transaction yet
  have hrefused : reports.any (Report.refuses r.transaction) = false := by
    rw [List.any_eq_false]
    intro x hx hrefuses
    cases x with
    | refused r' => exact h.refused r' hx r hr (beq_iff_eq.mp hrefuses).symm
    | _ => cases hrefuses
  have hanswer : reports.findSome? (Report.answer? r.transaction) = none := by
    rw [List.findSome?_eq_none_iff]
    intro x hx
    cases x with
    | executed r' response' heard' =>
      refine if_neg (hn r' ?_)
      exact List.mem_filterMap.mpr ⟨_, hx, rfl⟩
    | _ => rfl
  have hcollected := h.given r.transaction hanswer
  have hwaiting : l.outcome? r.transaction = some .waiting := by
    rw [h.outcome _ hlt, outcomeIn]
    simp [hrefused, hanswer]
  refine ⟨hacc ▸ h.numbers, fun r' hr' => ?_, fun n hle x hx => ?_, fun r' hr' => ?_,
    fun n hnone => ?_, fun n hlt' => ?_⟩
  · rw [hacc] at hr'
    rw [Ledger.size_answer]
    exact h.accepted_lt r' hr'
  · rw [Ledger.size_answer] at hle
    rcases List.mem_append.mp hx with hx | hx
    · exact h.passes n hle x hx
    · exact List.mem_singleton.mp hx ▸ hp n (by omega)
  · rw [hacc]
    exact h.refused r' (by simpa using hr')
  · rw [List.findSome?_append, Option.or_eq_none_iff] at hnone
    rw [List.any_append, h.given n hnone.1]
    rfl
  · rw [Ledger.outcome?_answer hwaiting]
    by_cases hne : n = r.transaction
    · subst hne
      rw [if_pos rfl, outcomeIn]
      simp [List.findSome?_append, hrefused, hanswer, hcollected, Report.refuses, Report.answer?,
        Report.collects]
    · rw [Ledger.size_answer] at hlt'
      rw [if_neg hne, outcomeIn_of_passes (hp n hne)]
      exact h.outcome n hlt'

/-- A transaction is polled. -/
theorem poll {n : Nat} (hlt : n < l.outcomes.size) :
    Books (reports ++ [.polled n (outcomeIn reports n).look]) (l.poll n).2 := by
  have hacc : accepted (reports ++ [.polled n (outcomeIn reports n).look]) = accepted reports := by
    rw [accepted_concat]
    exact List.append_nil _
  have hcollects (m : Nat) (hne : m ≠ n) :
      (Report.polled n (outcomeIn reports n).look).collects m = false := by
    unfold Report.collects
    split
    · next heq =>
      obtain ⟨rfl, _⟩ := Report.polled.inj heq
      simpa using Ne.symm hne
    · rfl
  have hp (m : Nat) (hne : m ≠ n) : (Report.polled n (outcomeIn reports n).look).Passes m :=
    ⟨rfl, rfl, hcollects m hne⟩
  refine ⟨hacc ▸ h.numbers, fun r hr => ?_, fun m hm x hx => ?_, fun r hr => ?_, fun m hm => ?_,
    fun m hm => ?_⟩
  · rw [hacc] at hr
    rw [Ledger.size_poll]
    exact h.accepted_lt r hr
  · rw [Ledger.size_poll] at hm
    rcases List.mem_append.mp hx with hx | hx
    · exact h.passes m hm x hx
    · exact List.mem_singleton.mp hx ▸ hp m (by omega)
  · rw [hacc]
    exact h.refused r (by simpa using hr)
  · rw [List.findSome?_append, Option.or_eq_none_iff] at hm
    rw [List.any_append, h.given m hm.1, List.any_cons, List.any_nil, Bool.false_or, Bool.or_false]
    by_cases hne : m = n
    · -- without an answer there was none to show
      subst hne
      unfold outcomeIn
      rw [hm.1]
      split <;> rfl
    · exact hcollects m hne
  · rw [Ledger.size_poll] at hm
    rw [Ledger.poll_spec (h.outcome n hlt)]
    by_cases hne : m = n
    · rw [if_pos hne, hne, outcomeIn_polled]
    · rw [if_neg hne, outcomeIn_of_passes (hp m hne)]
      exact h.outcome m hm

end Books

end InstrumentFlow.Scpi
