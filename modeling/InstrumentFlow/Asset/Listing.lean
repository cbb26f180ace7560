import InstrumentFlow.Asset.Definition
import InstrumentFlow.Scpi.Program
import InstrumentFlow.Value.Convert

/-!
# Listings of definitions

A listing for people: constants, global variables, and every flow with its components, expressions
and wires.

* `Literal.text`, `Kind.label`, `inputLabel` -- the small texts;
* `Component.lines`, `Flow.lines` -- the parts of the listing;
* `Definition.listing` -- the whole.
-/

namespace InstrumentFlow

open Bytecode

/-! ## 1. Small texts -/

mutual

/-- The text of the value of a literal. -/
def Literal.text : Literal → String
  | .undefined => ""
  | .null => "null"
  | .int i => toString i.toInt
  | .float x => numberLayout.text x
  | .double x => numberLayout.text x
  | .boolean b => if b then "true" else "false"
  | .string s => s
  | .array items => "[" ++ ", ".intercalate (Literal.textList items) ++ "]"

def Literal.textList : List Literal → List String
  | [] => []
  | l :: ls => l.text :: Literal.textList ls

end

/-- The name of a kind in a listing. -/
def Kind.label : Kind → String
  | start => "Start"
  | finish => "End"
  | output => "Output"
  | callAction => "CallAction"
  | evalExpr => "EvalExpr"
  | setVariable => "SetVariable"
  | isTrue => "IsTrue"
  | constant => "Constant"
  | log => "Log"
  | delay => "Delay"
  | loop => "Loop"
  | error => "Error"
  | catchError => "CatchError"
  | noop => "Noop"
  | scpi => "Scpi"
  | host code => s!"Host({code})"

/-- What a slot with these flags receives. -/
def inputLabel (flags : UInt8) : String :=
  if flags &&& Flow.sequenceFlag != 0 then "seq"
  else if flags &&& Flow.optionalFlag != 0 then "optional"
  else "data"

/-- Items between square brackets. -/
def bracketList (items : List String) : String := "[" ++ ", ".intercalate items ++ "]"

/-- One numbered line per literal. -/
def literalLines (ls : List Literal) : List String :=
  ls.zipIdx.map fun (l, index) => numberedLine "" index l.text

/-! ## 2. Components -/

namespace Component

def headLine (c : Component) (index : Nat) : String :=
  let label := c.kind.label
  let mark := if c.breakpoint then " [break]" else ""
  let inputs := bracketList (c.inputs.map fun slot => toString slot.toNat)
  s!"#{index} {label}{mark} inputs={inputs}"

def propertyLines (c : Component) : List String :=
  c.properties.zipIdx.flatMap fun (p, index) =>
    s!"  property {index}:" :: streamLines "    " 0 p.instructions

/-- The parts of a command text; only SCPI components have them. -/
def scpiLines (c : Component) : List String :=
  if c.kind = .scpi then "  parts:" :: Scpi.partLines c.payload else []

/-- One line per output that is wired. -/
def outputLines (c : Component) : List String :=
  c.outputs.zipIdx.filterMap fun (o, index) =>
    if o.connections.isEmpty then none
    else
      let targets := ", ".intercalate (o.connections.map fun connection =>
        let component := connection.targetComponent
        let input := connection.targetInput
        s!"#{component}.{input}")
      let mark := if c.catchOutput = some (UInt16.ofNat index) then " (catch)" else ""
      some s!"  out {index}{mark} -> {targets}"

def lines (c : Component) (index : Nat) : List String :=
  ["", c.headLine index] ++ c.propertyLines ++ c.scpiLines ++ c.outputLines

end Component

/-! ## 3. Flows and definitions -/

def Flow.lines (f : Flow) (index : Nat) : List String :=
  let name := f.name
  let inputs := bracketList (f.inputFlags.map inputLabel)
  let locals := bracketList (f.locals.map Literal.text)
  ["", s!"--- FLOW #{index} '{name}' ---", s!"inputs: {inputs}"]
    ++ (if f.locals.isEmpty then [] else [s!"locals: {locals}"])
    ++ f.components.zipIdx.flatMap fun (c, i) => c.lines i

/-- **The listing of a definition.** -/
def Definition.listing (d : Definition) : String :=
  joinLines (["======== FLOW DEFINITION ========", "", "--- CONSTANTS ---"]
    ++ literalLines d.constants
    ++ (if d.globals.isEmpty then [] else ["", "--- GLOBALS ---"] ++ literalLines d.globals)
    ++ d.flows.zipIdx.flatMap (fun (f, index) => f.lines index)
    ++ ["", "================ END OF DEFINITION ================"])

end InstrumentFlow
