import InstrumentFlow.Proofs.Dialogue.Follow
import InstrumentFlow.Proofs.Transactions.Trade

/-!
# A payload from left to right

What the payload of an SCPI component means, said without suspensions: its parts are gone through
once, and what becomes of each request is known beforehand.

* `Reaction` -- what becomes of a request: refused, never answered, or answered;
* `ask`, `hear` -- a request goes out; what follows from what became of it;
* `interpret` -- **the interpretation of a payload**. Every part takes at least its tag, so that it
  ends for every row of bytes;
* `interpret_text`, `interpret_verb`, ... -- what it does at each part.
-/

namespace InstrumentFlow

open Scpi

/-! ## 1. Requests and reactions -/

/-- What becomes of a request. -/
inductive Scpi.Reaction where
  | refused (r : Refusal)
  /-- It was accepted, and no answer can come. -/
  | lost
  | answered (r : Response)
  deriving DecidableEq

namespace Scpi

/-- How a transaction stands that is not waited for any more. -/
def Reaction.outcome : Reaction → Outcome
  | .answered r => .answered r
  | _ => .closed

/-- The kind of request that a verb sends, and whether its answer goes to a target. -/
def PartHead.verb? : PartHead → Option (RequestKind × Bool)
  | .queryAssign => some (.query, true)
  | .query => some (.query, false)
  | .command => some (.command, false)
  | _ => none

/-- There is a part only where there are bytes. -/
theorem lt_of_readHead {payload : List UInt8} {offset : Nat} {head : PartHead}
    (h : readHead payload offset = .ok head) : offset < payload.length := by
  by_contra hlt
  have hdrop : payload.drop offset = [] := List.drop_eq_nil_of_le (Nat.le_of_not_lt hlt)
  unfold readHead at h
  rw [hdrop] at h
  cases h

theorem readHead_of_le {payload : List UInt8} {offset : Nat} (h : payload.length ≤ offset) :
    readHead payload offset = .error (.partsEnd offset) := by
  unfold readHead
  rw [List.drop_eq_nil_of_le h]

end Scpi

namespace Engine

/-- Whoever serves requests does as the reaction says. -/
def Meets (x : Reaction) (d : Dispatcher) : Prop :=
  ∀ r, match x with
    | .refused refusal => offerRequest d r = .error refusal
    | _ => ∃ d', offerRequest d r = .ok d'

/-! ## 2. The interpretation -/

/-- The program while a component waits: the pulses of the component are used up, and others run
    what was queued. -/
def standBy (e : Engine) (i : InstanceId) (component : Nat) : Engine :=
  let e := e.resetSequenceInputs i component
  { e with queue := e.queue.clear }

/-- **A request with the text so far** is logged and goes out. -/
def ask (i : InstanceId) (component : Nat) (kind : RequestKind) (text : String) (x : Reaction) :
    Act Unit := do
  modify (·.log i component (requestEntry kind text))
  match x with
  | .refused refusal => throw (.dispatch refusal)
  | _ => modify fun e => (e.record (.dispatched i component ⟨0, kind, text⟩)).standBy i component

/-- **What follows from an answer**: an error of the instrument ends the work, the answer to a query
    is logged, and where it goes to a target it is assigned. Gives the bytes of the target. -/
def hear (i : InstanceId) (component : Nat) (kind : RequestKind) (assigns : Bool)
    (body : List UInt8) (text : String) (x : Reaction) : Act Nat := do
  match x with
  | .answered r =>
    if r.error ≠ 0 then
      throw (.instrument r.error ((← get).host.scpiText r.error) text)
    if kind = .query then modify (·.log i component (.result r.text))
    if assigns then assignAnswer i component body r.text else pure 0
  | _ => throw .resultUnavailable

/-- A request, and what follows from what becomes of it. -/
def converse (i : InstanceId) (component : Nat) (kind : RequestKind) (assigns : Bool)
    (body : List UInt8) (text : String) (x : Reaction) : Act Nat := do
  ask i component kind text x
  hear i component kind assigns body text x

section

variable (i : InstanceId) (component flow : Nat) (payload : List UInt8) (reaction : Nat → Reaction)

/-- **The interpretation of a payload** from an offset on, with the text so far and the count of the
    requests so far. Texts join the text, a verb sends it and begins a new one, the end completes
    the work with a pulse. -/
def interpret (offset : Nat) (text : String) (n : Nat) : Act Unit :=
  let body := payload.drop (offset + 1)
  match h : readHead payload offset with
  | .error defect => throw (.malformedComponent flow component defect)
  | .ok (.text s size) => interpret (offset + 1 + size) (text ++ s) n
  | .ok .expression => do
    let (v, consumed) ← evaluateIn .scpiExpression i body [] false
    let s ← textOf v
    interpret (offset + 1 + consumed) (text ++ s) n
  | .ok .queryAssign => do
    let consumed ← converse i component .query true body text (reaction n)
    interpret (offset + 1 + consumed) "" (n + 1)
  | .ok .query => do
    let consumed ← converse i component .query false body text (reaction n)
    interpret (offset + 1 + consumed) "" (n + 1)
  | .ok .command => do
    let consumed ← converse i component .command false body text (reaction n)
    interpret (offset + 1 + consumed) "" (n + 1)
  | .ok .finish => pulse i component
termination_by payload.length - offset
decreasing_by
  all_goals
    have hlt := lt_of_readHead h
    omega

/-- The interpretation after a request went out. -/
def interpretAnswer (kind : RequestKind) (assigns : Bool) (offset : Nat) (text : String) (n : Nat) :
    Act Unit := do
  let consumed ← hear i component kind assigns (payload.drop (offset + 1)) text (reaction n)
  interpret i component flow payload reaction (offset + 1 + consumed) "" (n + 1)

variable {i component flow payload reaction} {offset : Nat} {text : String} {n : Nat}

theorem interpret_error {defect : Defect} (h : readHead payload offset = .error defect) :
    interpret i component flow payload reaction offset text n
      = throw (.malformedComponent flow component defect) := by
  rw [interpret]
  split <;> simp_all

theorem interpret_text {s : String} {size : Nat}
    (h : readHead payload offset = .ok (.text s size)) :
    interpret i component flow payload reaction offset text n
      = interpret i component flow payload reaction (offset + 1 + size) (text ++ s) n := by
  rw [interpret]
  split <;> simp_all

theorem interpret_expression (h : readHead payload offset = .ok .expression) :
    interpret i component flow payload reaction offset text n
      = (evaluateIn .scpiExpression i (payload.drop (offset + 1)) [] false >>= fun r =>
          textOf r.1 >>= fun s =>
            interpret i component flow payload reaction (offset + 1 + r.2) (text ++ s) n) := by
  rw [interpret]
  split <;> simp_all

theorem interpret_finish (h : readHead payload offset = .ok .finish) :
    interpret i component flow payload reaction offset text n = pulse i component := by
  rw [interpret]
  split <;> simp_all

/-- At a verb the interpretation asks, and goes on with the answer. -/
theorem interpret_verb {head : PartHead} {kind : RequestKind} {assigns : Bool}
    (h : readHead payload offset = .ok head) (hv : head.verb? = some (kind, assigns)) :
    interpret i component flow payload reaction offset text n
      = (ask i component kind text (reaction n) >>= fun _ =>
          interpretAnswer i component flow payload reaction kind assigns offset text n) := by
  cases head with
  | queryAssign | query | command =>
    obtain ⟨rfl, rfl⟩ := Prod.mk.inj (Option.some.inj hv)
    rw [interpret]
    split <;> simp_all [converse, interpretAnswer]
  | text s size | expression | finish => cases hv

end

end Engine

end InstrumentFlow
