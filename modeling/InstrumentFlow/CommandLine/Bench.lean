import InstrumentFlow.Engine.Perform
import InstrumentFlow.Scpi.Simulator

/-!
# A program on a bench

A running program together with the simulated instrument that serves its requests. Time passes in
ticks of one millisecond; between two ticks the instrument finishes what is due.

* `Bench` -- program, instrument and time;
* `Bench.begin` -- the instrument notes when the request in its service will be finished;
* `Bench.serve` -- it finishes everything that is due;
* `Bench.tick`, `Bench.run` -- one tick with the time after it; ticks until nothing is left to do.
-/

namespace InstrumentFlow.CommandLine

open Scpi

structure Bench where
  engine : Engine
  simulator : Simulator := {}
  /-- How long the instrument works on a request, in nanoseconds. -/
  latency : Nat
  /-- When the request in service will be finished. -/
  due : Option Nat := none

/-- What a run did. -/
structure Tally where
  ticks : Nat := 0
  executed : Nat := 0
  deriving DecidableEq, Repr

namespace Bench

/-- The length of a tick, in nanoseconds. -/
def tickLength : Nat := 1000000

def nanosecondsPerMillisecond : Nat := 1000000

/-- The worker between program and instrument. -/
def worker? (b : Bench) : Option Worker :=
  match b.engine.dispatcher with
  | .worker w => some w
  | _ => none

/-- Begins the service of a request at the present moment, if one came in. -/
def begin (b : Bench) : Bench :=
  match b.due, b.worker?.bind Worker.inService with
  | none, some _ => { b with due := some (b.engine.clock + b.latency) }
  | _, _ => b

/-- Finishes the request in service, and begins the next one at the moment when this one was due. -/
def finish (b : Bench) (moment : Nat) : Bench :=
  match b.worker?.bind Worker.finish with
  | none => { b with due := none }
  | some (r, w) =>
    let (response, simulator) := b.simulator.serve r
    { b with
      simulator
      engine :=
        { b.engine with
          dispatcher := .worker w
          ledger := b.engine.ledger.answer r.transaction response }
      due := w.inService.map fun _ => moment + b.latency }

/-- Finishes at most `count` requests that are due. -/
def serve : Nat → Bench → Bench
  | 0, b => b
  | count + 1, b =>
    match b.due with
    | some moment => if moment ≤ b.engine.clock then serve count (b.finish moment) else b
    | none => b

/-- The count of requests that the instrument has accepted and not finished. -/
def backlog (b : Bench) : Nat := (b.worker?.map (·.accepted.length)).getD 0

/-- **One tick**, and the time until the next one. -/
def tick (b : Bench) : TickReport × Bench :=
  let (report, engine) := b.engine.tick Engine.handler b.engine.config.allowance
  let b := { b with engine }.begin
  let b := { b with engine := { b.engine with clock := b.engine.clock + tickLength } }
  (report, b.serve b.backlog)

/-- Whether nothing is left to do. -/
def isIdle (b : Bench) : Bool := b.engine.isStopped || b.engine.queue.isEmpty

/-- **Ticks until nothing is left to do**, at most so many. -/
def run : Nat → Tally → Bench → Tally × Bench
  | 0, tally, b => (tally, b)
  | more + 1, tally, b =>
    if b.isIdle then (tally, b)
    else
      let (report, b) := b.tick
      run more ⟨tally.ticks + 1, tally.executed + report.executed⟩ b

end Bench

end InstrumentFlow.CommandLine
