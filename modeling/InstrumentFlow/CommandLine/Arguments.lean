import InstrumentFlow.Numeric.Decimal

/-!
# Command lines

* `Job` -- what the program can be told to do;
* `Setting` -- the options that take a value; `Grammar` -- what the words after a job may be;
* `Word`, `words` -- command line arguments, sorted into operands and options;
* `Draft` -- the operands and settings of a job so far;
* `Reading`, `readArguments` -- what a command line asks for; `usage` explains the jobs.

Arguments are read from left to right, and the first one that settles the matter, a request for
help or a mistake, ends the reading.
-/

namespace InstrumentFlow.CommandLine

open Numeric

/-! ## 1. Jobs -/

/-- How a flow is to be run against the simulated instrument. -/
structure RunOptions where
  asset : String
  config : Option String := none
  flow : Nat := 0
  /-- The run is given up after so many ticks. -/
  ticks : Nat := 10000
  /-- How long the instrument works on a request, in milliseconds. -/
  latency : Nat := 5
  deriving DecidableEq, Repr

inductive Job where
  | run (options : RunOptions)
  | disassemble (asset : String)
  | convert (source target : String)
  | sample (target : String)
  deriving DecidableEq, Repr

/-- What a command line asks for. -/
inductive Reading where
  | job (j : Job)
  | help
  | version
  | misuse
  deriving DecidableEq, Repr

/-! ## 2. Words -/

/-- An option that takes a value. -/
inductive Setting where
  | config
  | flow
  | ticks
  | latency
  deriving DecidableEq, Repr

namespace Setting

def name : Setting → String
  | config => "config"
  | flow => "flow"
  | ticks => "ticks"
  | latency => "latency-ms"

/-- The letter that stands for the name. -/
def letter? : Setting → Option Char
  | config => some 'c'
  | flow => some 'f'
  | ticks => some 't'
  | latency => none

end Setting

/-- What may follow the name of a job. -/
structure Grammar where
  settings : List Setting := []
  operands : Nat
  deriving Repr

/-- The meaning of one argument, or of an option with the value after it. -/
inductive Word where
  | operand (text : String)
  | setting (s : Setting) (value : String)
  | help
  | misuse
  deriving DecidableEq, Repr

/-- What an argument is by itself. -/
inductive Shape where
  /-- Everything behind it is an operand. -/
  | divider
  | complete (w : Word)
  /-- The next argument is the value. -/
  | awaiting (s : Setting)
  deriving DecidableEq, Repr

/-- Whether an argument looks like an option. A lone hyphen does not. -/
def isHyphenated (arg : String) : Bool :=
  match arg.toList with
  | '-' :: _ :: _ => true
  | _ => false

/-- An option with its name spelled out, and perhaps a value behind an equals sign. -/
def longShape (g : Grammar) (body : List Char) : Shape :=
  let name := String.ofList (body.takeWhile (· != '='))
  let value? : Option String :=
    match body.dropWhile (· != '=') with
    | _ :: value => some (String.ofList value)
    | [] => none
  match g.settings.find? (·.name == name), value? with
  | some s, some value => .complete (.setting s value)
  | some s, none => .awaiting s
  | none, some _ => .complete .misuse
  | none, none => .complete (if name = "help" then .help else .misuse)

/-- Option letters behind one hyphen. A value may follow its letter at once or behind an equals
    sign; the letter for help ends the reading, so that no letter behind it matters. -/
def shortShape (g : Grammar) (letter : Char) (rest : List Char) : Shape :=
  match g.settings.find? (·.letter? == some letter) with
  | some s =>
    match rest with
    | [] => .awaiting s
    | '=' :: value => .complete (.setting s (String.ofList value))
    | value => .complete (.setting s (String.ofList value))
  | none => .complete (if letter = 'h' then .help else .misuse)

def shapeOf (g : Grammar) (arg : String) : Shape :=
  match arg.toList with
  | ['-', '-'] => .divider
  | '-' :: '-' :: body => longShape g body
  | '-' :: letter :: rest => shortShape g letter rest
  | _ => .complete (.operand arg)

/-- **The words of a job's arguments.** The value of an option must not look like an option. -/
def words (g : Grammar) : List String → List Word
  | [] => []
  | arg :: rest =>
    match shapeOf g arg with
    | .divider => rest.map .operand
    | .complete w => w :: words g rest
    | .awaiting s =>
      match rest with
      | [] => [.misuse]
      | value :: rest =>
        if isHyphenated value then [.misuse] else .setting s value :: words g rest

/-! ## 3. Drafts -/

/-- A whole number of at most 64 bits, with an optional plus sign. -/
def readCount? (text : String) : Option Nat :=
  let digits :=
    match text.toList with
    | '+' :: digits => digits
    | digits => digits
  if digits.isEmpty || !digits.all isDigit then none
  else
    let n := digitsValue digits
    if n < twoTo 64 then some n else none

/-- The operands and settings so far. -/
structure Draft where
  operands : List String := []
  config : Option String := none
  flow : Option Nat := none
  ticks : Option Nat := none
  latency : Option Nat := none
  deriving DecidableEq, Repr

namespace Draft

/-- A file name; it must not be empty. -/
def readName? (text : String) : Option String := if text = "" then none else some text

/-- Gives a setting its value, which must have the right form and be the first one. -/
def put? (d : Draft) (s : Setting) (value : String) : Option Draft :=
  match s with
  | .config =>
    if d.config.isSome then none
    else (readName? value).map fun name => { d with config := some name }
  | .flow =>
    if d.flow.isSome then none else (readCount? value).map fun n => { d with flow := some n }
  | .ticks =>
    if d.ticks.isSome then none else (readCount? value).map fun n => { d with ticks := some n }
  | .latency =>
    if d.latency.isSome then none
    else (readCount? value).map fun n => { d with latency := some n }

/-- Adds an operand, as long as the job takes more of them. -/
def addOperand? (d : Draft) (g : Grammar) (text : String) : Option Draft :=
  if d.operands.length < g.operands then
    (readName? text).map fun name => { d with operands := d.operands ++ [name] }
  else none

/-- The draft as options of a run. -/
def runOptions (d : Draft) (asset : String) : RunOptions :=
  let standard : RunOptions := { asset }
  { standard with
    config := d.config
    flow := d.flow.getD standard.flow
    ticks := d.ticks.getD standard.ticks
    latency := d.latency.getD standard.latency }

end Draft

/-! ## 4. Reading -/

/-- Words in order, with the job that the finished draft makes. -/
def readWords (g : Grammar) (job? : Draft → Option Job) : Draft → List Word → Reading
  | d, [] =>
    match job? d with
    | some j => .job j
    | none => .misuse
  | d, w :: rest =>
    match w with
    | .help => .help
    | .misuse => .misuse
    | .operand text =>
      match d.addOperand? g text with
      | some d => readWords g job? d rest
      | none => .misuse
    | .setting s value =>
      match d.put? s value with
      | some d => readWords g job? d rest
      | none => .misuse

/-- The names of the jobs. -/
inductive JobName where
  | run
  | disassemble
  | convert
  | sample
  deriving DecidableEq, Repr

namespace JobName

def ofText? : String → Option JobName
  | "run" => some run
  | "disassemble" => some disassemble
  | "convert" => some convert
  | "sample" => some sample
  | _ => none

def grammar : JobName → Grammar
  | run => { settings := [.config, .flow, .ticks, .latency], operands := 1 }
  | disassemble => { operands := 1 }
  | convert => { operands := 2 }
  | sample => { operands := 1 }

/-- The job of a draft with all its operands. -/
def job? (n : JobName) (d : Draft) : Option Job :=
  match n, d.operands with
  | run, [asset] => some (.run (d.runOptions asset))
  | disassemble, [asset] => some (.disassemble asset)
  | convert, [source, target] => some (.convert source target)
  | sample, [target] => some (.sample target)
  | _, _ => none

end JobName

/-- What a request for help is about: nothing, or the name of one job or of help itself. -/
def readTopic : List String → Reading
  | [] => .help
  | [topic] => if topic = "help" || (JobName.ofText? topic).isSome then .help else .misuse
  | _ => .misuse

/-- An option in front of the name of a job. -/
def readLeading (arg : String) : Reading :=
  match arg.toList with
  | '-' :: '-' :: body =>
    if body = "help".toList then .help
    else if body = "version".toList then .version
    else .misuse
  | '-' :: 'h' :: _ => .help
  | '-' :: 'V' :: _ => .version
  | _ => .misuse

/-- **What a command line asks for.** -/
def readArguments : List String → Reading
  | [] => .misuse
  | arg :: rest =>
    match JobName.ofText? arg with
    | some n => readWords n.grammar n.job? {} (words n.grammar rest)
    | none => if arg = "help" then readTopic rest else readLeading arg

/-! ## 5. Help -/

/-- The lines that explain the jobs. -/
def usage : List String :=
  ["Runs and inspects bench flow assets",
   "",
   "Usage: benchflow-cli <COMMAND>",
   "",
   "Commands:",
   "  run [OPTIONS] <ASSET_PATH>",
   "          Run an asset against a simulated instrument",
   "  disassemble <ASSET_PATH>",
   "          Print a listing of every flow, component and property",
   "  convert <INPUT_PATH> <OUTPUT_PATH>",
   "          Convert an asset between JSON and packed bytes, chosen by the output extension",
   "  sample <OUTPUT_PATH>",
   "          Write a small example asset that talks to the simulated instrument",
   "  help",
   "          Print this message",
   "",
   "Options of run:",
   "  -c, --config <CONFIG>          Optional runtime configuration JSON file",
   "  -f, --flow <FLOW>              Index of the flow to start [default: 0]",
   "  -t, --ticks <TICKS>            Give up after this many ticks [default: 10000]",
   "      --latency-ms <LATENCY_MS>  Milliseconds per transaction of the instrument [default: 5]",
   "",
   "Options:",
   "  -h, --help     Print help",
   "  -V, --version  Print version"]

/-- The line that names the program and its version. -/
def versionLine : String := "benchflow 0.1.0"

end InstrumentFlow.CommandLine
