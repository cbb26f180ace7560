import InstrumentFlow.Proofs.Serving.Rows

/-!
# The service as a run

The operations of a service are made of the steps of its parties: what a service does in one
operation, clients and worker can do step by step, and the same is told of it.

* `Operation`, `Service.perform`, `Service.reports` -- what can be done to a service; what is told
  of that;
* `Brisk` -- a worker with nothing to do has nothing in its row;
* `goes_perform`, `runs_performAll` -- an operation is a run of steps, and so are many.
-/

namespace InstrumentFlow.Scpi

/-! ## 1. Operations -/

/-- What can be done to a service. -/
inductive Operation where
  | send (kind : RequestKind) (text : String)
  | answer (response : Response)
  | poll (transaction : Nat)
  | abandon (transaction : Nat)
  | close
  deriving DecidableEq, Repr

/-- What is told of a request that was sent. -/
def Reception.reports (r : Request) : Reception → List Report
  | started _ => [.accepted r, .begun r]
  | queued => [.accepted r]
  | refused _ => [.refused r]

/-- What is told of a look at a transaction. -/
def Look.reports (n : Nat) : Look → List Report
  | gone => []
  | look => [.polled n look]

namespace Service

def perform (s : Service) : Operation → Service
  | .send kind text => (s.send kind text).2
  | .answer response => (s.answer response).2
  | .poll n => (s.poll n).2
  | .abandon n => (s.abandon n).2
  | .close => s.close.2

/-- The request that is sent next. -/
def request (s : Service) (kind : RequestKind) (text : String) : Request :=
  ⟨s.ledger.outcomes.size, kind, text⟩

/-- What is told when a request gets an answer. -/
def answered (s : Service) (response : Response) (r : Request) : Report :=
  .executed r response (decide (r.transaction ∈ s.held))

/-- What is told when a request is served that stood in the row. -/
def served (s : Service) (r : Request) : List Report := [.begun r, s.answered dismissal r]

/-- **What is told of an operation.** -/
def reports (s : Service) : Operation → List Report
  | .send kind text => ((s.send kind text).1.map (Reception.reports (s.request kind text))).getD []
  | .answer response =>
    match (s.answer response).1 with
    | none => []
    | some (r, next) => [s.answered response r] ++ next.toList.map Report.begun
  | .poll n => (s.poll n).1.reports n
  | .abandon n => if (s.abandon n).1 then [.abandoned n] else []
  | .close =>
    match s.worker with
    | none => []
    | some w =>
      [.dismissed] ++ w.inService.toList.map (s.answered dismissal) ++ w.waiting.flatMap s.served
        ++ [.ended]

/-- The service as parties: it is closed when its worker is gone, and not before. -/
def parties (s : Service) : Parties := { s with closing := s.worker.isNone }

/-- A worker with nothing to do has nothing in its row, which has room. -/
def Brisk (s : Service) : Prop :=
  ∀ w, s.worker = some w → 0 < w.capacity ∧ (w.inService = none → w.waiting = [])

/-! ## 2. The operations, case by case -/

section

variable {s : Service} {w : Worker}

theorem send_of_gone (hw : s.worker = none) (kind : RequestKind) (text : String) :
    s.send kind text = (none, s) := by
  unfold send
  rw [hw]

theorem send_of_idle (hw : s.worker = some w) (hi : w.inService = none) (kind : RequestKind)
    (text : String) :
    s.send kind text = (some (.started (s.request kind text)),
      { ledger := s.ledger.start.2
        held := s.held ++ [s.ledger.start.1]
        worker := some { w with inService := some (s.request kind text) } }) := by
  unfold send Worker.offer request
  simp [hw, hi, Ledger.start]

theorem send_of_room {r : Request} (hw : s.worker = some w) (hi : w.inService = some r)
    (hr : w.waiting.length < w.capacity) (kind : RequestKind) (text : String) :
    s.send kind text = (some .queued,
      { ledger := s.ledger.start.2
        held := s.held ++ [s.ledger.start.1]
        worker := some { w with waiting := w.waiting ++ [s.request kind text] } }) := by
  unfold send Worker.offer request
  simp [hw, hi, hr, Ledger.start]

theorem send_of_full {r : Request} (hw : s.worker = some w) (hi : w.inService = some r)
    (hr : ¬ w.waiting.length < w.capacity) (kind : RequestKind) (text : String) :
    s.send kind text = (some (.refused (.dispatch .workerFull)),
      { s with
        ledger := s.ledger.start.2.close s.ledger.start.1
        held := s.held ++ [s.ledger.start.1] }) := by
  unfold send Worker.offer
  simp [hw, hi, hr, Ledger.start]

theorem answer_of_idle (h : ∀ w, s.worker = some w → w.inService = none) (response : Response) :
    s.answer response = (none, s) := by
  have hnone : s.worker.bind Worker.finish = none := by
    cases hw : s.worker with
    | none => rfl
    | some w =>
      show w.finish = none
      unfold Worker.finish
      rw [h w hw]
  unfold answer
  rw [hnone]

theorem answer_of_last {r : Request} (hw : s.worker = some w) (hi : w.inService = some r)
    (hr : w.waiting = []) (response : Response) :
    s.answer response = (some (r, none),
      { s with
        ledger := s.ledger.answer r.transaction response
        worker := some { w with inService := none } }) := by
  unfold answer Worker.finish
  simp [hw, hi, hr]

theorem answer_of_next {r next : Request} {waiting : List Request} (hw : s.worker = some w)
    (hi : w.inService = some r) (hr : w.waiting = next :: waiting) (response : Response) :
    s.answer response = (some (r, some next),
      { s with
        ledger := s.ledger.answer r.transaction response
        worker := some { w with inService := some next, waiting } }) := by
  unfold answer Worker.finish
  simp [hw, hi, hr]

theorem poll_of_gone {n : Nat} (h : n ∉ s.held) : s.poll n = (.gone, s) := by
  unfold poll
  rw [if_neg h]

theorem poll_fst_ne_gone {n : Nat} (h : n ∈ s.held) : (s.poll n).1 ≠ .gone := by
  unfold poll
  rw [if_pos h]
  split <;> exact fun hgone => (nomatch hgone)

theorem abandon_of_gone {n : Nat} (h : n ∉ s.held) : s.abandon n = (false, s) := by
  unfold abandon
  have hsame : s.held.filter (· != n) = s.held :=
    List.filter_eq_self.mpr fun m hm => bne_iff_ne.mpr fun heq => h (heq ▸ hm)
  rw [hsame, decide_eq_false h]

theorem parties_of_worker (hw : s.worker = some w) : s.parties = { toService := s } := by
  unfold parties
  rw [hw]
  rfl

end

end Service

/-! ## 3. The operations as steps -/

section

variable {s : Service}

theorem goes_send (hb : s.Brisk) (kind : RequestKind) (text : String) :
    Goes s.parties (s.reports (.send kind text)) (s.perform (.send kind text)).parties
      ∧ (s.perform (.send kind text)).Brisk := by
  unfold Service.perform Service.reports
  dsimp only
  cases hw : s.worker with
  | none =>
    rw [Service.send_of_gone hw]
    exact ⟨.start, hb⟩
  | some w =>
    obtain ⟨hcapacity, hrow⟩ := hb w hw
    rw [Service.parties_of_worker hw]
    cases hi : w.inService with
    | none =>
      rw [Service.send_of_idle hw hi]
      have hempty := hrow hi
      have hroom : w.waiting.length < w.capacity := by
        rw [hempty]
        exact hcapacity
      have hqueued : w.waiting ++ [s.request kind text] = s.request kind text :: w.waiting := by
        rw [hempty]
        rfl
      refine ⟨?_, fun w' hw' => ?_⟩
      · have hbegin := Step.begin (p := { s with
            ledger := s.ledger.start.2
            held := s.held ++ [s.ledger.start.1]
            worker := some { w with waiting := w.waiting ++ [s.request kind text] } }) rfl hi hqueued
        exact (Goes.single (.accept hw rfl hroom kind text)).step hbegin
      · obtain rfl := Option.some.inj hw'
        exact ⟨hcapacity, fun h => (nomatch h)⟩
    | some r =>
      by_cases hroom : w.waiting.length < w.capacity
      · rw [Service.send_of_room hw hi hroom]
        refine ⟨?_, fun w' hw' => ?_⟩
        · exact .single (.accept hw rfl hroom kind text)
        · obtain rfl := Option.some.inj hw'
          refine ⟨hcapacity, fun h => ?_⟩
          rw [hi] at h
          cases h
      · rw [Service.send_of_full hw hi hroom]
        refine ⟨?_, hb⟩
        have hafter := Service.parties_of_worker (s := { s with
          ledger := s.ledger.start.2.close s.ledger.start.1
          held := s.held ++ [s.ledger.start.1] }) hw
        exact hafter ▸ .single (.refuse hw rfl (Nat.le_of_not_lt hroom) kind text)

theorem goes_answer (hb : s.Brisk) (response : Response) :
    Goes s.parties (s.reports (.answer response)) (s.perform (.answer response)).parties
      ∧ (s.perform (.answer response)).Brisk := by
  unfold Service.perform Service.reports
  dsimp only
  by_cases hidle : ∀ w, s.worker = some w → w.inService = none
  · rw [Service.answer_of_idle hidle]
    exact ⟨.start, hb⟩
  · obtain ⟨w, hw, hbusy⟩ : ∃ w, s.worker = some w ∧ w.inService ≠ none := by
      simpa only [not_forall, exists_prop] using hidle
    obtain ⟨r, hi⟩ := Option.ne_none_iff_exists'.mp hbusy
    obtain ⟨hcapacity, _⟩ := hb w hw
    rw [Service.parties_of_worker hw]
    have hrespond := Goes.single (Step.respond (p := { toService := s }) hw hi response)
    cases hrow : w.waiting with
    | nil =>
      rw [Service.answer_of_last hw hi hrow]
      refine ⟨?_, fun w' hw' => ?_⟩
      · exact hrespond
      · obtain rfl := Option.some.inj hw'
        exact ⟨hcapacity, fun _ => hrow⟩
    | cons next waiting =>
      rw [Service.answer_of_next hw hi hrow]
      refine ⟨?_, fun w' hw' => ?_⟩
      · have hbegin := Step.begin (p := { s with
            ledger := s.ledger.answer r.transaction response
            worker := some { w with inService := none } }) rfl rfl hrow
        exact hrespond.step hbegin
      · obtain rfl := Option.some.inj hw'
        exact ⟨hcapacity, fun h => (nomatch h)⟩

theorem goes_poll (hb : s.Brisk) (n : Nat) :
    Goes s.parties (s.reports (.poll n)) (s.perform (.poll n)).parties
      ∧ (s.perform (.poll n)).Brisk := by
  unfold Service.perform Service.reports
  dsimp only
  by_cases hh : n ∈ s.held
  · have hlook : (s.poll n).1.reports n = [.polled n (s.poll n).1] := by
      have hgone := Service.poll_fst_ne_gone hh
      cases h : (s.poll n).1 with
      | gone => exact absurd h hgone
      | pending | response | failed => rfl
    have hgo := Goes.single (Step.poll (p := s.parties) hh)
    rw [hlook, Service.poll_snd s hh]
    refine ⟨?_, hb⟩
    have hsame : s.parties.toService.poll n = s.poll n := rfl
    rw [hsame, Service.poll_snd s hh] at hgo
    exact hgo
  · rw [Service.poll_of_gone hh]
    exact ⟨.start, hb⟩

theorem goes_abandon (hb : s.Brisk) (n : Nat) :
    Goes s.parties (s.reports (.abandon n)) (s.perform (.abandon n)).parties
      ∧ (s.perform (.abandon n)).Brisk := by
  unfold Service.perform Service.reports
  dsimp only
  by_cases hh : n ∈ s.held
  · have htrue : (s.abandon n).1 = true := decide_eq_true hh
    rw [if_pos htrue]
    exact ⟨.single (Step.abandon (p := s.parties) hh), hb⟩
  · rw [Service.abandon_of_gone hh]
    exact ⟨.start, hb⟩

/-- A dismissed worker serves the requests in its row. -/
theorem goes_served (waiting : List Request) {capacity : Nat} (p : Parties)
    (hw : p.worker = some ⟨capacity, none, waiting⟩) :
    Goes p (waiting.flatMap p.served) { p with
      ledger := waiting.foldl (fun l r => l.answer r.transaction Service.dismissal) p.ledger
      worker := some ⟨capacity, none, []⟩ } := by
  induction waiting generalizing p with
  | nil =>
    have hsame : ({ p with worker := some ⟨capacity, none, []⟩ } : Parties) = p := by rw [← hw]
    rw [List.flatMap_nil, List.foldl_nil, hsame]
    exact .start
  | cons r waiting ih =>
    have hbegin := Goes.single (Step.begin hw rfl rfl)
    have hserved := hbegin.step (.respond rfl rfl Service.dismissal)
    exact hserved.trans (ih _ rfl)

theorem goes_close (s : Service) :
    Goes s.parties (s.reports .close) (s.perform .close).parties ∧ (s.perform .close).Brisk := by
  unfold Service.perform Service.reports Service.close
  dsimp only
  cases hw : s.worker with
  | none =>
    refine ⟨.start, fun w h => ?_⟩
    rw [hw] at h
    cases h
  | some w =>
    obtain ⟨capacity, inService, waiting⟩ := w
    refine ⟨?_, fun w h => (nomatch h)⟩
    rw [Service.parties_of_worker hw]
    have hdismiss := Goes.single (Step.dismiss (p := { toService := s }) hw rfl)
    cases inService with
    | none =>
      have hserved := hdismiss.trans (goes_served waiting { s with closing := true } hw)
      exact hserved.step (.leave rfl rfl rfl rfl)
    | some r =>
      have hrespond := hdismiss.step (.respond hw rfl Service.dismissal)
      have hserved := hrespond.trans (goes_served waiting _ rfl)
      exact hserved.step (.leave rfl rfl rfl rfl)

/-- **An operation is a run of steps** that tell the same. -/
theorem goes_perform (hb : s.Brisk) (o : Operation) :
    Goes s.parties (s.reports o) (s.perform o).parties ∧ (s.perform o).Brisk := by
  cases o with
  | send kind text => exact goes_send hb kind text
  | answer response => exact goes_answer hb response
  | poll n => exact goes_poll hb n
  | abandon n => exact goes_abandon hb n
  | close => exact goes_close s

end

/-! ## 4. Many operations -/

namespace Service

def performAll (s : Service) (operations : List Operation) : Service :=
  operations.foldl perform s

/-- What is told of operations, one after the other. -/
def reportsAll (s : Service) : List Operation → List Report
  | [] => []
  | o :: operations => s.reports o ++ (s.perform o).reportsAll operations

/-- A service before its first operation. -/
def beginning (capacity : Nat) : Service := { worker := some { capacity } }

end Service

theorem goes_performAll (operations : List Operation) {s : Service} (hb : s.Brisk) :
    Goes s.parties (s.reportsAll operations) (s.performAll operations).parties := by
  induction operations generalizing s with
  | nil => exact .start
  | cons o operations ih =>
    obtain ⟨hgo, hb'⟩ := goes_perform hb o
    exact hgo.trans (ih hb')

/-- **Whatever is done to a service** from its beginning is a run. -/
theorem runs_performAll {capacity : Nat} (hc : 0 < capacity) (operations : List Operation) :
    Runs capacity ((Service.beginning capacity).reportsAll operations)
      ((Service.beginning capacity).performAll operations).parties := by
  refine goes_performAll operations fun w hw => ?_
  obtain rfl := Option.some.inj hw
  exact ⟨hc, fun _ => rfl⟩

end InstrumentFlow.Scpi
