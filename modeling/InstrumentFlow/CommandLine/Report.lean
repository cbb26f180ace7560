import InstrumentFlow.Asset.File
import InstrumentFlow.Asset.Listing
import InstrumentFlow.CommandLine.Arguments
import InstrumentFlow.CommandLine.Bench
import InstrumentFlow.CommandLine.Sample

/-!
# Jobs and what they report

* `Line`, `Report` -- everything that a job prints, and whether it succeeded;
* `eventLine?` -- how an event of a run is shown;
* `runReport` -- a flow against the simulated instrument;
* `Job.perform` -- any job, with files reached through a `FileAccess`.
-/

namespace InstrumentFlow.CommandLine

open Engine

/-! ## 1. Reports -/

/-- A piece of text for one of the two output channels. -/
inductive Line where
  | output (text : String)
  | error (text : String)
  deriving DecidableEq, Repr

structure Report where
  /-- What is printed, in order. -/
  lines : List Line
  succeeded : Bool := true
  /-- Closing remarks on how much work a run was. -/
  summary : List String := []
  deriving DecidableEq, Repr

namespace Report

def outputText : Line → String
  | .output text => text
  | .error _ => ""

def errorText : Line → String
  | .output _ => ""
  | .error text => text

/-- All that goes to the output channel, but for the summary. -/
def output (r : Report) : String := String.join (r.lines.map outputText)

/-- All that goes to the error channel. -/
def error (r : Report) : String := String.join (r.lines.map errorText)

def exitCode (r : Report) : UInt32 := if r.succeeded then 0 else 1

/-- A report that ends with a failure. -/
def failing (lines : List Line) (message : String) : Report :=
  { lines := lines ++ [.error ("\nError: " ++ message ++ "\n")], succeeded := false }

/-- A report of one piece of output. -/
def saying (text : String) : Report := { lines := [.output text] }

end Report

/-! ## 2. Runs -/

/-- How log entries are marked. -/
def entryText : LogEntry → String
  | .info text => text
  | .command text => ">> " ++ text
  | .query text => "?> " ++ text
  | .result text => "<< " ++ text

/-- How an event is shown, if it is. -/
def eventLine? : Event → Option Line
  | .logged _ place entry => some (.output (s!"  [#{place}] " ++ entryText entry ++ "\n"))
  | .failed _ place message => some (.error (s!"  [#{place}] error: " ++ message ++ "\n"))
  | _ => none

/-- The journal as lines, the earliest event first. -/
def journalLines (e : Engine) : List Line := e.journal.reverse.filterMap eventLine?

/-- How a run ended. -/
def endingText (e : Engine) : String :=
  match e.lastError with
  | some message => "\nFlow stopped with error: " ++ message ++ "\n"
  | none =>
    if e.queue.isEmpty then "\nFlow finished.\n"
    else
      let count := e.queue.size
      s!"\nTick limit reached with {count} tasks queued.\n"

/-- The summary of a run. -/
def summaryLines (tally : Tally) (e : Engine) : List String :=
  let ticks := tally.ticks
  let executed := tally.executed
  let duration := e.clock / Bench.nanosecondsPerMillisecond
  ["--- Performance Summary ---",
   s!"Execution:            {duration}ms",
   s!"Ticks:                {ticks}",
   s!"Tasks Executed:       {executed}",
   "-----------------------------"]

/-- The host of a run: it listens, and knows the texts of the simulated instrument's errors. -/
def benchHost : Host :=
  { nativesWritable := false, scpiTexts := Scpi.Simulator.errorTexts }

/-- **Runs a flow against the simulated instrument.** -/
def runReport (o : RunOptions) (definition : Definition) (config : Config) : Report :=
  match Engine.build definition config (.worker { capacity := config.requestCapacity })
      benchHost with
  | .error err => .failing [] ("Invalid asset: " ++ err.message)
  | .ok engine =>
    let heading := Line.output (s!"\nRunning flow {o.flow} of '" ++ o.asset ++ "'...\n")
    match startFlow o.flow engine with
    | .error err engine =>
      .failing (heading :: journalLines engine) ("Failed to start flow: " ++ err.message)
    | .ok _ engine =>
      let bench : Bench :=
        { engine, latency := o.latency * Bench.nanosecondsPerMillisecond }
      let (tally, bench) := bench.run o.ticks {}
      { lines := heading :: journalLines bench.engine ++ [.output (endingText bench.engine)]
        summary := summaryLines tally bench.engine }

/-! ## 3. Jobs -/

variable {m : Type → Type} [Monad m]

/-- The definition in a file, or the report that there is none. -/
def loadAsset (files : FileAccess m) (path : String) : m (Except Report Definition) := do
  match Definition.ofFile path (← files.read path) with
  | .ok d => return .ok d
  | .error err => return .error (.failing [] (s!"Failed to load asset '{path}': " ++ err.message))

/-- The limits for a run: those in a file, if one is named. -/
def loadConfig (files : FileAccess m) : Option String → m (Except Report Config)
  | none => return .ok {}
  | some path => do
    match Config.ofFile path (← files.read path) with
    | .ok c => return .ok c
    | .error err =>
      return .error (.failing [] (s!"Failed to load config '{path}': " ++ err.message))

/-- Writes a definition to a file, and says so. -/
def saveAsset (files : FileAccess m) (d : Definition) (path success : String) : m Report := do
  match ← files.write path (d.fileContent path) with
  | .ok () => return .saying success
  | .error fault =>
    let err := AssetError.file path fault
    return .failing [] (s!"Failed to write '{path}': " ++ err.message)

/-- **Does a job.** -/
def Job.perform (files : FileAccess m) : Job → m Report
  | .run o => do
    match ← loadAsset files o.asset with
    | .error report => return report
    | .ok definition =>
      match ← loadConfig files o.config with
      | .error report => return report
      | .ok config => return runReport o definition config
  | .disassemble asset => do
    match ← loadAsset files asset with
    | .error report => return report
    | .ok definition => return .saying definition.listing
  | .convert source target => do
    match ← loadAsset files source with
    | .error report => return report
    | .ok definition =>
      saveAsset files definition target s!"Converted '{source}' -> '{target}'\n"
  | .sample target =>
    saveAsset files sampleDefinition target s!"Sample asset written to '{target}'\n"

end InstrumentFlow.CommandLine
