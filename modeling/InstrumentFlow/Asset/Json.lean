import InstrumentFlow.Asset.Validate
import InstrumentFlow.Json.Number
import InstrumentFlow.Json.Reader

/-!
# Definitions as JSON

* `Shape` -- readers of trees that know how deep they stand;
* `Shape.fields` -- the fields of a record, from an object or from a list in order;
* `Shape.choice` -- a named alternative, with or without content;
* one reader and one writer per record;
* `Definition.toJsonText`, `Definition.ofJsonText` -- whole definitions.
-/

namespace InstrumentFlow

open Numeric (twoTo)

/-- A reader of trees. The number counts how many brackets may still be opened. -/
abbrev Shape (α : Type) := Nat → Json → Option α

namespace Shape

/-! ## 1. Plain shapes -/

/-- How many brackets may stand open around a value. -/
def deepest : Nat := 127

/-- Opens a bracket. -/
def descend (depth : Nat) (f : Nat → Option α) : Option α :=
  match depth with
  | 0 => none
  | depth + 1 => f depth

def boolean : Shape Bool
  | _, .boolean b => some b
  | _, _ => none

def text : Shape String
  | _, .string (some s) => some s
  | _, _ => none

/-- A whole number within bounds. -/
def integer (low high : Int) : Shape Int
  | _, .number spelling =>
    match (Json.Spelling.ofChars spelling).integer? with
    | some i => if low ≤ i ∧ i ≤ high then some i else none
    | none => none
  | _, _ => none

def word8 : Shape UInt8 := fun d j =>
  (integer 0 (twoTo 8 - 1) d j).map fun i => UInt8.ofNat i.toNat

def word16 : Shape UInt16 := fun d j =>
  (integer 0 (twoTo 16 - 1) d j).map fun i => UInt16.ofNat i.toNat

def int32 : Shape Int32 := fun d j =>
  (integer (-(twoTo 31 : Int)) (twoTo 31 - 1) d j).map Int32.ofInt

def single : Shape Numeric.Binary32
  | _, .number spelling => (Json.Spelling.ofChars spelling).single?
  | _, _ => none

def double : Shape Numeric.Binary64
  | _, .number spelling => (Json.Spelling.ofChars spelling).double?
  | _, _ => none

/-- Null, or content. -/
def optional (shape : Shape α) : Shape (Option α)
  | _, .null => some none
  | d, j => (shape d j).map some

def list (shape : Shape α) : Shape (List α)
  | d, .array items => descend d fun d => items.mapM (shape d)
  | _, _ => none

/-! ## 2. Records -/

/-- The first member with a name. -/
def member? (name : String) (members : List (Option String × Json)) : Option Json :=
  (members.find? (·.1 == some name)).map (·.2)

/-- Every member has a name that is a text, and no name of a field occurs twice. -/
def namesFit (names : List String) (members : List (Option String × Json)) : Bool :=
  members.all (·.1.isSome) && names.all fun n => (members.filter (·.1 == some n)).length ≤ 1

/-- The trees of a record's fields, in the order of their names; a field that an object leaves out
    is missing. A list must hold all fields. -/
def fields (names : List String) (d : Nat) (j : Json) : Option (Nat × List (Option Json)) :=
  match j with
  | .object members =>
    descend d fun d =>
      if namesFit names members then some (d, names.map fun n => member? n members) else none
  | .array items =>
    descend d fun d =>
      if items.length = names.length then some (d, items.map some) else none
  | _ => none

/-- A field that must be there. -/
def required (shape : Shape α) (d : Nat) (j : Option Json) : Option α := j.bind (shape d)

/-- A field that counts as null when it is missing. -/
def lenient (shape : Shape α) (d : Nat) (j : Option Json) : Option (Option α) :=
  match j with
  | some j => optional shape d j
  | none => some none

/-- A named alternative: its name alone, or an object with the name and the content. -/
def choice (d : Nat) (j : Json) : Option (Nat × String × Option Json) :=
  match j with
  | .string (some name) => some (d, name, none)
  | .object [(some name, content)] => descend d fun d => some (d, name, some content)
  | _ => none

/-- An alternative without content may be given null. -/
def isEmptyContent : Option Json → Bool
  | none | some .null => true
  | _ => false

end Shape

open Shape

/-! ## 3. Literals -/

mutual

def Literal.toJson : Literal → Json
  | .undefined => .text "Undefined"
  | .null => .text "Null"
  | .int i => .ofMembers [("Int32", .ofInt i.toInt)]
  | .float x => .ofMembers [("Float", .ofBinary Json.singleLayout x)]
  | .double x => .ofMembers [("Double", .ofBinary Json.doubleLayout x)]
  | .boolean b => .ofMembers [("Boolean", .boolean b)]
  | .string s => .ofMembers [("String", .text s)]
  | .array items => .ofMembers [("Array", .array (Literal.toJsonList items))]

/-- The trees of a list of literals. -/
def Literal.toJsonList : List Literal → List Json
  | [] => []
  | l :: ls => l.toJson :: Literal.toJsonList ls

end

/-- A literal that is no array, from its name and content. -/
def Literal.ofPlainChoice (d : Nat) (name : String) (content : Option Json) : Option Literal :=
  match name with
  | "Undefined" => if isEmptyContent content then some .undefined else none
  | "Null" => if isEmptyContent content then some .null else none
  | "Int32" => (required int32 d content).map .int
  | "Float" => (required single d content).map .float
  | "Double" => (required Shape.double d content).map .double
  | "Boolean" => (required Shape.boolean d content).map .boolean
  | "String" => (required text d content).map .string
  | _ => none

mutual

/-- A literal from its tree. -/
def Literal.ofJson : Nat → Json → Option Literal
  | d, .object [(some "Array", .array items)] =>
    descend d fun d => descend d fun d => (Literal.ofJsonList d items).map .array
  | d, j =>
    match choice d j with
    | some (d, name, content) => Literal.ofPlainChoice d name content
    | none => none

/-- Literals from a list of trees. -/
def Literal.ofJsonList : Nat → List Json → Option (List Literal)
  | _, [] => some []
  | d, j :: js =>
    match Literal.ofJson d j, Literal.ofJsonList d js with
    | some l, some ls => some (l :: ls)
    | _, _ => none

end

/-! ## 4. Components -/

namespace Kind

/-- The kinds that need nothing but their name. -/
def named : List (String × Kind) :=
  [("Start", start), ("End", finish), ("Output", output), ("CallAction", callAction),
    ("EvalExpr", evalExpr), ("SetVariable", setVariable), ("IsTrue", isTrue),
    ("Constant", constant), ("Log", log), ("Delay", delay), ("Loop", loop), ("Error", error),
    ("CatchError", catchError), ("Noop", noop), ("Scpi", scpi)]

/-- The name of a kind. -/
def name (k : Kind) : String :=
  match named.find? (·.2 == k) with
  | some (n, _) => n
  | none => "Host"

def toJson : Kind → Json
  | host code => .ofMembers [("Host", .ofNat code.toNat)]
  | k => .text k.name

def ofJson : Shape Kind := fun d j =>
  match choice d j with
  | some (d, "Host", content) => (required word16 d content).map host
  | some (_, n, content) => if isEmptyContent content then named.lookup n else none
  | none => none

end Kind

def byteList (bytes : List UInt8) : Json := .array (bytes.map fun b => .ofNat b.toNat)

def Connection.toJson (c : Connection) : Json :=
  .ofMembers [("target_component", .ofNat c.targetComponent.toNat),
    ("target_input", .ofNat c.targetInput.toNat), ("seq_in", .boolean c.isSequence)]

def Connection.ofJson : Shape Connection := fun d j =>
  match fields ["target_component", "target_input", "seq_in"] d j with
  | some (d, [component, input, sequence]) => do
    some ⟨← required word16 d component, ← required word16 d input, ← required boolean d sequence⟩
  | _ => none

def Output.toJson (o : Output) : Json :=
  .ofMembers [("is_seq_out", .boolean o.isSequence),
    ("connections", .array (o.connections.map Connection.toJson))]

def Output.ofJson : Shape Output := fun d j =>
  match fields ["is_seq_out", "connections"] d j with
  | some (d, [sequence, connections]) => do
    some ⟨← required boolean d sequence, ← required (list Connection.ofJson) d connections⟩
  | _ => none

def Property.toJson (p : Property) : Json :=
  .ofMembers [("instructions", byteList p.instructions)]

def Property.ofJson : Shape Property := fun d j =>
  match fields ["instructions"] d j with
  | some (d, [instructions]) => do some ⟨← required (list word8) d instructions⟩
  | _ => none

def Component.toJson (c : Component) : Json :=
  .ofMembers [("component_type", c.kind.toJson), ("breakpoint", .boolean c.breakpoint),
    ("inputs", .array (c.inputs.map fun slot => .ofNat slot.toNat)),
    ("properties", .array (c.properties.map Property.toJson)),
    ("outputs", .array (c.outputs.map Output.toJson)),
    ("error_catch_output",
      match c.catchOutput with
      | some output => .ofNat output.toNat
      | none => .null),
    ("payload", byteList c.payload)]

def Component.ofJson : Shape Component := fun d j =>
  match fields ["component_type", "breakpoint", "inputs", "properties", "outputs",
    "error_catch_output", "payload"] d j with
  | some (d, [kind, breakpoint, inputs, properties, outputs, catchOutput, payload]) => do
    some
      { kind := ← required Kind.ofJson d kind
        breakpoint := ← required boolean d breakpoint
        inputs := ← required (list word16) d inputs
        properties := ← required (list Property.ofJson) d properties
        outputs := ← required (list Output.ofJson) d outputs
        catchOutput := ← lenient word16 d catchOutput
        payload := ← required (list word8) d payload }
  | _ => none

/-! ## 5. Flows and definitions -/

def Flow.toJson (f : Flow) : Json :=
  .ofMembers [("name", .text f.name), ("components", .array (f.components.map Component.toJson)),
    ("component_inputs", byteList f.inputFlags),
    ("local_variables", .array (Literal.toJsonList f.locals))]

def Flow.ofJson : Shape Flow := fun d j =>
  match fields ["name", "components", "component_inputs", "local_variables"] d j with
  | some (d, [name, components, inputs, locals]) => do
    some
      { name := ← required text d name
        components := ← required (list Component.ofJson) d components
        inputFlags := ← required (list word8) d inputs
        locals := ← required (list Literal.ofJson) d locals }
  | _ => none

namespace Definition

def toJson (d : Definition) : Json :=
  .ofMembers [("flows", .array (d.flows.map Flow.toJson)),
    ("constants", .array (Literal.toJsonList d.constants)),
    ("global_variables", .array (Literal.toJsonList d.globals))]

def ofJson : Shape Definition := fun d j =>
  match fields ["flows", "constants", "global_variables"] d j with
  | some (d, [flows, constants, globals]) => do
    some
      { flows := ← required (list Flow.ofJson) d flows
        constants := ← required (list Literal.ofJson) d constants
        globals := ← required (list Literal.ofJson) d globals }
  | _ => none

/-- The JSON text of a definition. -/
def toJsonText (d : Definition) : String := d.toJson.render

/-- The definition that a JSON text writes, sound or not. -/
def readJsonText? (text : String) : Option Definition :=
  (Json.parse? text).bind (ofJson deepest)

/-- **A sound definition from a JSON text.** -/
def ofJsonText (text : String) : Except AssetError Definition :=
  match readJsonText? text with
  | some d => d.validate.map fun _ => d
  | none => .error .json

end Definition

end InstrumentFlow
