import InstrumentFlow.Error

/-!
# Transactions with an instrument

Every command or query that is sent is one transaction, numbered from 0. Its answer waits in a
ledger until the sender collects it.

* `Request`, `Response` -- what is sent and what comes back; the error code 0 means success;
* `Outcome` -- how far a transaction is: unanswered, answered but not collected, or over;
* `Ledger` -- the outcomes of all transactions so far, with `start`, `answer`, `close` and `poll`.
-/

namespace InstrumentFlow.Scpi

inductive RequestKind where
  | command
  | query
  deriving DecidableEq, Repr

structure Request where
  /-- The number of the transaction. -/
  transaction : Nat
  kind : RequestKind
  text : String
  deriving DecidableEq, Repr

structure Response where
  text : String
  error : Int32
  deriving DecidableEq, Repr

inductive Outcome where
  | waiting
  | answered (r : Response)
  /-- Collected, or never to be answered. -/
  | closed
  deriving DecidableEq, Repr

structure Ledger where
  outcomes : Array Outcome := #[]

namespace Ledger

/-- A new transaction, which waits for its answer. -/
def start (l : Ledger) : Nat × Ledger := (l.outcomes.size, ⟨l.outcomes.push .waiting⟩)

def outcome? (l : Ledger) (transaction : Nat) : Option Outcome := l.outcomes[transaction]?

def replace (l : Ledger) (transaction : Nat) (o : Outcome) : Ledger :=
  ⟨l.outcomes.setIfInBounds transaction o⟩

/-- Answers a transaction that waits. -/
def answer (l : Ledger) (transaction : Nat) (r : Response) : Ledger :=
  match l.outcome? transaction with
  | some .waiting => l.replace transaction (.answered r)
  | _ => l

/-- Gives up a transaction that waits. -/
def close (l : Ledger) (transaction : Nat) : Ledger :=
  match l.outcome? transaction with
  | some .waiting => l.replace transaction .closed
  | _ => l

/-- Gives up the transactions of requests. -/
def closeAll (l : Ledger) (requests : List Request) : Ledger :=
  requests.foldl (fun l r => l.close r.transaction) l

/-- **Asks for an answer**: nothing yet, the answer, which is collected by that, or the failure that
    none can come. -/
def poll (l : Ledger) (transaction : Nat) : Except FlowError (Option Response) × Ledger :=
  match l.outcome? transaction with
  | some .waiting => (.ok none, l)
  | some (.answered r) => (.ok (some r), l.replace transaction .closed)
  | _ => (.error .resultUnavailable, l)

end Ledger

end InstrumentFlow.Scpi
