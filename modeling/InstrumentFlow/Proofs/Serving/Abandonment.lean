import InstrumentFlow.Proofs.Serving.Rows

/-!
# An abandoned transaction

Whether a transaction is abandoned makes no difference to any other: what is told besides it is the
same with and without.

* `Report.besides`, `besides` -- what is told besides one transaction;
* `Alike` -- parties that differ in one transaction only;
* `Step.alike` -- a step of one of two such parties is one of the other, or is about the transaction;
* `Goes.alike` -- what goes on with one of them goes on with the other;
* `Step.alike_of_abandoned` -- before and after a transaction is abandoned they are such parties.
-/

namespace InstrumentFlow.Scpi

/-! ## 1. What is told besides a transaction -/

/-- A report without what it tells of a transaction: whether it is polled or abandoned, and whether
    its answer is heard. -/
def Report.besides (transaction : Nat) : Report → Option Report
  | polled n look => if n = transaction then none else some (polled n look)
  | abandoned n => if n = transaction then none else some (abandoned n)
  | executed r response heard =>
    some (executed r response (heard && decide (r.transaction ≠ transaction)))
  | report => some report

/-- **What is told besides a transaction.** -/
def besides (transaction : Nat) (reports : List Report) : List Report :=
  reports.filterMap (Report.besides transaction)

theorem besides_append (transaction : Nat) (reports more : List Report) :
    besides transaction (reports ++ more) = besides transaction reports ++ besides transaction more :=
  List.filterMap_append

/-! ## 2. Ledgers that agree but for a transaction -/

namespace Ledger

/-- The ledgers agree on all transactions but one. -/
structure Alike (transaction : Nat) (l l' : Ledger) : Prop where
  size : l.outcomes.size = l'.outcomes.size
  outcome : ∀ n, n ≠ transaction → l.outcome? n = l'.outcome? n

variable {transaction : Nat} {l l' : Ledger}

theorem outcome?_replace_of_ne (l : Ledger) {n m : Nat} (h : m ≠ n) (o : Outcome) :
    (l.replace n o).outcome? m = l.outcome? m := by
  rw [outcome?_replace, if_neg fun hm => h hm.1]

theorem outcome?_answer_of_ne (l : Ledger) {n m : Nat} (h : m ≠ n) (r : Response) :
    (l.answer n r).outcome? m = l.outcome? m := by
  unfold answer
  split
  · exact outcome?_replace_of_ne l h _
  · rfl

theorem outcome?_poll_of_ne (l : Ledger) {n m : Nat} (h : m ≠ n) :
    (l.poll n).2.outcome? m = l.outcome? m := by
  unfold poll
  split
  · rfl
  · exact outcome?_replace_of_ne l h _
  · rfl

theorem Alike.symm (h : l.Alike transaction l') : l'.Alike transaction l :=
  ⟨h.size.symm, fun n hn => (h.outcome n hn).symm⟩

theorem Alike.start (h : l.Alike transaction l') : l.start.2.Alike transaction l'.start.2 := by
  refine ⟨?_, fun n hn => ?_⟩
  · rw [size_start, size_start, h.size]
  · rw [outcome?_start, outcome?_start, h.size, h.outcome n hn]

theorem Alike.refuse (h : l.Alike transaction l') :
    (l.start.2.close l.start.1).Alike transaction (l'.start.2.close l'.start.1) := by
  refine ⟨?_, fun n hn => ?_⟩
  · rw [size_close, size_close, size_start, size_start, h.size]
  · rw [outcome?_start_close, outcome?_start_close, h.size, h.outcome n hn]

theorem Alike.replace (h : l.Alike transaction l') (n : Nat) (o : Outcome) :
    (l.replace n o).Alike transaction (l'.replace n o) := by
  refine ⟨?_, fun m hm => ?_⟩
  · rw [size_replace, size_replace, h.size]
  · rw [outcome?_replace, outcome?_replace, h.size, h.outcome m hm]

theorem Alike.answer (h : l.Alike transaction l') (n : Nat) (r : Response) :
    (l.answer n r).Alike transaction (l'.answer n r) := by
  by_cases hn : n = transaction
  · refine ⟨?_, fun m hm => ?_⟩
    · rw [size_answer, size_answer, h.size]
    · rw [← hn] at hm
      rw [outcome?_answer_of_ne l hm, outcome?_answer_of_ne l' hm, h.outcome m (hn ▸ hm)]
  · unfold Ledger.answer
    rw [h.outcome n hn]
    split
    · exact h.replace n _
    · exact h

/-- To poll the one transaction makes no difference to the others. -/
theorem Alike.poll_left (h : l.Alike transaction l') : (l.poll transaction).2.Alike transaction l' :=
  ⟨(size_poll l transaction).trans h.size,
    fun n hn => (outcome?_poll_of_ne l hn).trans (h.outcome n hn)⟩

/-- To poll another shows the same in both. -/
theorem Alike.poll (h : l.Alike transaction l') {n : Nat} (hn : n ≠ transaction) :
    (l.poll n).1 = (l'.poll n).1 ∧ (l.poll n).2.Alike transaction (l'.poll n).2 := by
  unfold Ledger.poll
  rw [h.outcome n hn]
  split
  · exact ⟨rfl, h⟩
  · exact ⟨rfl, h.replace n _⟩
  · exact ⟨rfl, h⟩

end Ledger

/-! ## 3. Parties that differ in a transaction -/

/-- **The parties differ in one transaction at most**, which was sent already. -/
structure Alike (transaction : Nat) (p q : Parties) : Prop where
  ledger : p.ledger.Alike transaction q.ledger
  sent : transaction < p.ledger.outcomes.size
  worker : p.worker = q.worker
  closing : p.closing = q.closing
  held : ∀ n, n ≠ transaction → (n ∈ p.held ↔ n ∈ q.held)

section

variable {transaction : Nat} {p p' q : Parties}

theorem Alike.symm (h : Alike transaction p q) : Alike transaction q p where
  ledger := h.ledger.symm
  sent := h.ledger.size ▸ h.sent
  worker := h.worker.symm
  closing := h.closing.symm
  held n hn := (h.held n hn).symm

theorem Alike.request (h : Alike transaction p q) (kind : RequestKind) (text : String) :
    p.request kind text = q.request kind text := by
  unfold Parties.request
  rw [h.ledger.size]

theorem Alike.held_send (h : Alike transaction p q) (n : Nat) (hn : n ≠ transaction) :
    n ∈ p.held ++ [p.ledger.start.1] ↔ n ∈ q.held ++ [q.ledger.start.1] := by
  rw [List.mem_append, List.mem_append, h.held n hn]
  unfold Ledger.start
  rw [h.ledger.size]

/-- A look at another transaction shows the same. -/
theorem Alike.poll (h : Alike transaction p q) {n : Nat} (hn : n ≠ transaction) (hh : n ∈ p.held) :
    (p.toService.poll n).1 = (q.toService.poll n).1 := by
  unfold Service.poll
  rw [if_pos hh, if_pos ((h.held n hn).mp hh)]
  have hlook := (h.ledger.poll hn).1
  revert hlook
  generalize p.ledger.poll n = a
  generalize q.ledger.poll n = b
  intro hlook
  obtain ⟨a, la⟩ := a
  obtain ⟨b, lb⟩ := b
  obtain rfl : a = b := hlook
  cases a with
  | error e => rfl
  | ok o => cases o <;> rfl

/-- **A step of one of two parties that differ in a transaction** is a step of the other, or is about
    the transaction only. -/
theorem Step.alike {report : Report} (hs : Step p report p') (h : Alike transaction p q) :
    ∃ reports q', Goes q reports q' ∧ besides transaction reports = besides transaction [report]
      ∧ Alike transaction p' q' := by
  cases hs with
  | accept hw ho hr kind text =>
    rw [h.worker] at hw
    rw [h.closing] at ho
    rw [h.request]
    refine ⟨_, _, .single (.accept hw ho hr kind text), rfl, h.ledger.start, ?_, rfl, h.closing,
      h.held_send⟩
    exact Nat.lt_of_lt_of_eq (Nat.lt_succ_of_lt h.sent) p.ledger.size_start.symm
  | refuse hw ho hr kind text =>
    rw [h.worker] at hw
    rw [h.closing] at ho
    rw [h.request]
    refine ⟨_, _, .single (.refuse hw ho hr kind text), rfl, h.ledger.refuse, ?_, h.worker,
      h.closing, h.held_send⟩
    have hsize : (p.ledger.start.2.close p.ledger.start.1).outcomes.size
        = p.ledger.outcomes.size + 1 := (Ledger.size_close _ _).trans p.ledger.size_start
    exact Nat.lt_of_lt_of_eq (Nat.lt_succ_of_lt h.sent) hsize.symm
  | begin hw hi hr =>
    rw [h.worker] at hw
    exact ⟨_, _, .single (.begin hw hi hr), rfl, h.ledger, h.sent, rfl, h.closing, h.held⟩
  | @respond w r hw hi response =>
    rw [h.worker] at hw
    refine ⟨_, _, .single (.respond hw hi response), ?_, h.ledger.answer _ _, ?_, rfl, h.closing,
      h.held⟩
    · by_cases hr : r.transaction = transaction
      · simp [besides, Report.besides, hr]
      · simp [besides, Report.besides, hr, h.held _ hr]
    · exact Nat.lt_of_lt_of_eq h.sent (Ledger.size_answer _ _ _).symm
  | @poll n hh =>
    rw [Service.poll_snd p.toService hh]
    have hsent := Nat.lt_of_lt_of_eq h.sent (p.ledger.size_poll n).symm
    by_cases hn : n = transaction
    · subst hn
      refine ⟨[], q, .start, ?_, h.ledger.poll_left, hsent, h.worker, h.closing, h.held⟩
      simp [besides, Report.besides]
    · have hh' := (h.held n hn).mp hh
      refine ⟨_, _, .single (.poll hh'), ?_, ?_⟩
      · rw [h.poll hn hh]
      · rw [Service.poll_snd q.toService hh']
        exact ⟨(h.ledger.poll hn).2, hsent, h.worker, h.closing, h.held⟩
  | @abandon n hh =>
    by_cases hn : n = transaction
    · subst hn
      refine ⟨[], q, .start, ?_, h.ledger, h.sent, h.worker, h.closing, fun m hm => ?_⟩
      · simp [besides, Report.besides]
      · rw [← h.held m hm]
        simpa [Service.abandon] using fun _ => hm
    · refine ⟨_, _, .single (.abandon ((h.held n hn).mp hh)), rfl, h.ledger, h.sent, h.worker,
        h.closing, fun m hm => ?_⟩
      simp [Service.abandon, h.held m hm]
  | dismiss hw ho =>
    rw [h.worker] at hw
    rw [h.closing] at ho
    exact ⟨_, _, .single (.dismiss hw ho), rfl, h.ledger, h.sent, h.worker, rfl, h.held⟩
  | leave hw hc hi hr =>
    rw [h.worker] at hw
    rw [h.closing] at hc
    exact ⟨_, _, .single (.leave hw hc hi hr), rfl, h.ledger, h.sent, rfl, h.closing, h.held⟩

/-- What goes on with one of two such parties goes on with the other. -/
theorem Goes.alike {more : List Report} (hg : Goes p more p') (h : Alike transaction p q) :
    ∃ reports q', Goes q reports q' ∧ besides transaction reports = besides transaction more
      ∧ Alike transaction p' q' := by
  induction hg with
  | start => exact ⟨[], q, .start, rfl, h⟩
  | @step earlier m m' report _ hs ih =>
    obtain ⟨reports, n, hn, hearlier, hm⟩ := ih
    obtain ⟨rest, n', hn', hrest, hm'⟩ := hs.alike hm
    refine ⟨reports ++ rest, n', hn.trans hn', ?_, hm'⟩
    rw [besides_append, besides_append, hearlier, hrest]

/-- **To abandon a transaction** changes nothing but that. -/
theorem Step.alike_of_abandoned {capacity : Nat} {reports : List Report}
    (hr : Rows capacity reports p) (hs : Step p (.abandoned transaction) p') :
    Alike transaction p' p := by
  cases hs with
  | abandon hh =>
    refine ⟨⟨rfl, fun _ _ => rfl⟩, ((hr.held transaction).mp hh).1, rfl, rfl, fun n hn => ?_⟩
    simpa [Service.abandon] using fun _ => hn

end

end InstrumentFlow.Scpi
