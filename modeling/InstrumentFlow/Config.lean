import InstrumentFlow.Error
import InstrumentFlow.Json.Number
import InstrumentFlow.Json.Reader

/-!
# Limits

* `Config` -- the limits of a running program;
* `Config.ofJson?` -- limits from JSON, where every limit may be left out;
* `Config.allowance` -- how many tasks a tick may run before its time is over.
-/

namespace InstrumentFlow

structure Config where
  /-- The time of one tick, in milliseconds. -/
  tickBudget : Nat := 20
  queueCapacity : Nat := 1000
  stackCapacity : Nat := 20
  /-- How many requests may wait for the instrument. -/
  requestCapacity : Nat := 4
  deriving DecidableEq, Repr

namespace Config

/-- The limit of a limit. -/
def bound : Nat := Numeric.twoTo 64

/-- A limit written as a whole number of at most 64 bits. -/
def limit? : Json → Option Nat
  | .number spelling =>
    match (Json.Spelling.ofChars spelling).integer? with
    | some i => if 0 ≤ i ∧ i < bound then some i.toNat else none
    | none => none
  | _ => none

/-- The names of the limits, in order. -/
def names : List String :=
  ["tick_budget_ms", "queue_capacity", "stack_capacity", "scpi_channel_capacity"]

/-- Replaces the limit with the given place among the names. -/
def set (c : Config) : Nat → Nat → Config
  | 0, n => { c with tickBudget := n }
  | 1, n => { c with queueCapacity := n }
  | 2, n => { c with stackCapacity := n }
  | 3, n => { c with requestCapacity := n }
  | _, _ => c

/-- Reads members in order. A name may stand once; other names are passed over. -/
def ofMembers? (c : Config) (seen : List Nat) : List (Option String × Json) → Option Config
  | [] => some c
  | (none, _) :: _ => none
  | (some key, j) :: rest =>
    match names.idxOf? key with
    | none => ofMembers? c seen rest
    | some place =>
      if place ∈ seen then none
      else
        match limit? j with
        | some n => ofMembers? (c.set place n) (place :: seen) rest
        | none => none

/-- Reads a list of limits in the order of their names. -/
def ofItems? (c : Config) (place : Nat) : List Json → Option Config
  | [] => some c
  | j :: rest =>
    if names.length ≤ place then none
    else
      match limit? j with
      | some n => ofItems? (c.set place n) (place + 1) rest
      | none => none

/-- Limits from a tree: an object, or a list of the first few. -/
def ofJson? : Json → Option Config
  | .object members => ofMembers? {} [] members
  | .array items => ofItems? {} 0 items
  | _ => none

/-- **Limits from a JSON text.** -/
def ofText (text : String) : Except ConfigError Config :=
  match (Json.parse? text).bind ofJson? with
  | some c => .ok c
  | none => .error .json

/-- The count of tasks after which the time of a tick is over, where time itself does not pass:
    a budget of zero is over at once, any other never ends. -/
def allowance (c : Config) : Option Nat := if c.tickBudget = 0 then some 0 else none

end Config

end InstrumentFlow
