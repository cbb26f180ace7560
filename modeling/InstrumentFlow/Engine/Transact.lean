import InstrumentFlow.Engine.Propagation
import InstrumentFlow.Scpi.Answer
import InstrumentFlow.Scpi.Program

/-!
# SCPI components

A component that talks to the instrument goes through the parts of its payload. A verb sends the
text so far as one request and waits, over as many ticks as it takes, for the answer.

* `Engine.log` -- a message to the host;
* `Engine.dispatch`, `transact` -- a new transaction; one poll of the one that is waited for;
* `runPart`, `runParts` -- one part; parts up to the next wait or the end;
* `Walk` -- where such a run stops.
-/

namespace InstrumentFlow.Engine

open Scpi

/-! ## 1. Requests -/

def log (e : Engine) (i : InstanceId) (component : Nat) (entry : LogEntry) : Engine :=
  e.record (.logged i component entry)

/-- Offers a request to whoever serves requests. -/
def offerRequest (d : Dispatcher) (r : Request) : Except Refusal Dispatcher :=
  match d with
  | .absent => .error .noDispatcher
  | .desk desk => (desk.offer r).map .desk
  | .worker w => (w.offer r).map .worker

/-- Sends a request and gives the number of its transaction. -/
def dispatch (i : InstanceId) (component : Nat) (kind : RequestKind) (text : String) :
    Act Nat := do
  let e ← get
  let (transaction, ledger) := e.ledger.start
  let r : Request := ⟨transaction, kind, text⟩
  match offerRequest e.dispatcher r with
  | .ok dispatcher =>
    set ({ e with ledger, dispatcher }.record (.dispatched i component r))
    return transaction
  | .error refusal =>
    set { e with ledger := ledger.close transaction }
    throw (.dispatch refusal)

/-- The log entry of a request. -/
def requestEntry (kind : RequestKind) (text : String) : LogEntry :=
  match kind with
  | .command => .command text
  | .query => .query text

/-- Sends the text of a component as a request, or polls the request that it waits for. Gives the
    answer, if there is one, and the progress afterwards. -/
def transact (i : InstanceId) (component : Nat) (kind : RequestKind) (s : ScpiProgress) :
    Act (Option Response × ScpiProgress) := do
  match s.pending with
  | none =>
    modify (·.log i component (requestEntry kind s.text))
    let transaction ← dispatch i component kind s.text
    return (none, { s with pending := some transaction })
  | some transaction =>
    let e ← get
    let (result, ledger) := e.ledger.poll transaction
    let e := { e with ledger }
    match result with
    | .error err =>
      set e
      throw err
    | .ok none =>
      set e
      return (none, s)
    | .ok (some r) =>
      set (e.record (.collected i component transaction r))
      return (some r, { s with pending := none })

/-! ## 2. Parts -/

/-- Where a run through parts stands: it goes on, waits, or is at the end. -/
inductive Walk where
  | onward (s : ScpiProgress)
  | waiting (s : ScpiProgress)
  | finished

/-- Assigns an answer to the target whose stream follows the verb, and gives the bytes of the
    stream. -/
def assignAnswer (i : InstanceId) (component : Nat) (body : List UInt8) (answer : String) :
    Act Nat := do
  let (destination, consumed) ← evaluateIn .scpiTarget i body [] true
  assign i component destination (answerValue answer)
  return consumed

/-- A verb: the request of the text so far, and what follows from its answer. `assigns` tells that
    the answer goes to a target. -/
def runVerb (i : InstanceId) (component : Nat) (kind : RequestKind) (assigns : Bool)
    (body : List UInt8) (s : ScpiProgress) : Act Walk := do
  let (response, s) ← transact i component kind s
  match response with
  | none => return .waiting s
  | some r =>
    if r.error ≠ 0 then
      throw (.instrument r.error ((← get).host.scpiText r.error) s.text)
    if kind = .query then modify (·.log i component (.result r.text))
    let consumed ← if assigns then assignAnswer i component body r.text else pure 0
    return .onward { s with cursor := s.cursor + 1 + consumed, text := "" }

/-- **One part of a payload.** -/
def runPart (i : InstanceId) (component flow : Nat) (payload : List UInt8) (s : ScpiProgress) :
    Act Walk := do
  let body := payload.drop (s.cursor + 1)
  match readHead payload s.cursor with
  | .error defect => throw (.malformedComponent flow component defect)
  | .ok (.text text size) =>
    return .onward { s with cursor := s.cursor + 1 + size, text := s.text ++ text }
  | .ok .expression =>
    let (v, consumed) ← evaluateIn .scpiExpression i body [] false
    let text ← textOf v
    return .onward { s with cursor := s.cursor + 1 + consumed, text := s.text ++ text }
  | .ok .queryAssign => runVerb i component .query true body s
  | .ok .query => runVerb i component .query false body s
  | .ok .command => runVerb i component .command false body s
  | .ok .finish => return .finished

/-- Parts up to the next wait or the end. Every part takes at least its tag, so the bytes of the
    payload bound the count of parts. -/
def runParts (i : InstanceId) (component flow : Nat) (payload : List UInt8) :
    Nat → ScpiProgress → Act (Option ScpiProgress)
  | 0, s => throw (.malformedComponent flow component (.partsEnd s.cursor))
  | more + 1, s => do
    match ← runPart i component flow payload s with
    | .onward s => runParts i component flow payload more s
    | .waiting s => return some s
    | .finished => return none

end InstrumentFlow.Engine
