import InstrumentFlow.Scpi.Transaction

/-!
# Where requests go

The host answers requests itself, at a desk, or a worker serves them in order.

* `Desk` -- a bounded row of requests and those that the host has taken off it;
* `Desk.offer` -- a new request, or why it is refused;
* `Desk.take`, `Desk.remove`, `Desk.leave` -- the host takes a request, settles one that it took,
  or stops attending;
* `Worker` -- one request in service and a bounded row behind it;
* `Worker.offer`, `Worker.finish` -- a new request; the end of the service, when the next begins;
* `Service` -- a worker with its ledger and the transactions that somebody still waits for;
* `Service.send`, `answer`, `poll`, `abandon`, `close` -- what can happen to it.
-/

namespace InstrumentFlow.Scpi

/-! ## 1. Desks -/

structure Desk where
  capacity : Nat
  waiting : List Request := []
  /-- Somebody takes requests. -/
  attended : Bool := true
  /-- The requests taken and not settled, each with its number among all that were taken. -/
  taken : List (Nat × Request) := []
  takenCount : Nat := 0

namespace Desk

def offer (d : Desk) (r : Request) : Except Refusal Desk :=
  if !d.attended then .error .receiverDropped
  else if d.waiting.length < d.capacity then .ok { d with waiting := d.waiting ++ [r] }
  else .error .queueFull

/-- Takes the first request, if there is one. -/
def take (d : Desk) : Option (Nat × Request) × Desk :=
  match d.attended, d.waiting with
  | true, r :: waiting =>
    let entry := (d.takenCount, r)
    (some entry, { d with waiting, taken := d.taken ++ [entry], takenCount := d.takenCount + 1 })
  | _, _ => (none, d)

/-- Removes a request that was taken. -/
def remove (d : Desk) (number : Nat) : Option Request × Desk :=
  (d.taken.lookup number, { d with taken := d.taken.filter (·.1 != number) })

/-- Stops attending; the requests that wait are lost. -/
def leave (d : Desk) : List Request × Desk :=
  (d.waiting, { d with waiting := [], attended := false })

end Desk

/-! ## 2. Workers -/

structure Worker where
  capacity : Nat
  inService : Option Request := none
  waiting : List Request := []

namespace Worker

/-- Serves the request at once, lets it wait, or refuses it. -/
def offer (w : Worker) (r : Request) : Except Refusal Worker :=
  match w.inService with
  | none => .ok { w with inService := some r }
  | some _ =>
    if w.waiting.length < w.capacity then .ok { w with waiting := w.waiting ++ [r] }
    else .error .workerFull

/-- Ends the service of a request and begins that of the next. -/
def finish (w : Worker) : Option (Request × Worker) :=
  match w.inService with
  | none => none
  | some r =>
    match w.waiting with
    | [] => some (r, { w with inService := none })
    | next :: waiting => some (r, { w with inService := some next, waiting })

/-- All requests that were accepted and are not finished, in order. -/
def accepted (w : Worker) : List Request := w.inService.toList ++ w.waiting

end Worker

/-! ## 3. Services -/

structure Service where
  ledger : Ledger := {}
  /-- `none` after the worker was dismissed. -/
  worker : Option Worker
  /-- The transactions whose answer somebody still waits for. -/
  held : List Nat := []

/-- How a request was received. -/
inductive Reception where
  | started (r : Request)
  | queued
  | refused (e : FlowError)

/-- What a look at a transaction shows. -/
inductive Look where
  | pending
  | response (r : Response)
  | failed (e : FlowError)
  | gone

namespace Service

/-- The answer of a dismissed worker to everything it had accepted. -/
def dismissal : Response := ⟨"", -1⟩

/-- Sends a request; nothing happens after the worker was dismissed. -/
def send (s : Service) (kind : RequestKind) (text : String) : Option Reception × Service :=
  match s.worker with
  | none => (none, s)
  | some w =>
    let (transaction, ledger) := s.ledger.start
    let held := s.held ++ [transaction]
    let r : Request := ⟨transaction, kind, text⟩
    match w.offer r with
    | .error refusal =>
      (some (.refused (.dispatch refusal)), { s with ledger := ledger.close transaction, held })
    | .ok w' =>
      let reception := if w.inService.isNone then Reception.started r else .queued
      (some reception, { ledger, worker := some w', held })

/-- Collects the answer of a transaction that somebody waits for. -/
def poll (s : Service) (transaction : Nat) : Look × Service :=
  if transaction ∈ s.held then
    match s.ledger.poll transaction with
    | (.ok none, ledger) => (.pending, { s with ledger })
    | (.ok (some r), ledger) => (.response r, { s with ledger })
    | (.error e, ledger) => (.failed e, { s with ledger })
  else (.gone, s)

/-- Nobody waits for a transaction any more. Tells whether somebody did. -/
def abandon (s : Service) (transaction : Nat) : Bool × Service :=
  (transaction ∈ s.held, { s with held := s.held.filter (· != transaction) })

/-- Answers the request in service: the request, and the one whose service begins. -/
def answer (s : Service) (r : Response) : Option (Request × Option Request) × Service :=
  match s.worker.bind Worker.finish with
  | none => (none, s)
  | some (request, w) =>
    (some (request, w.inService),
      { s with ledger := s.ledger.answer request.transaction r, worker := some w })

/-- Dismisses the worker, which first answers everything it had accepted. Gives the requests whose
    service began meanwhile. -/
def close (s : Service) : Option (List Request) × Service :=
  match s.worker with
  | none => (none, s)
  | some w =>
    (some w.waiting,
      { s with
        ledger := w.accepted.foldl (fun l r => l.answer r.transaction dismissal) s.ledger
        worker := none })

end Service

end InstrumentFlow.Scpi
