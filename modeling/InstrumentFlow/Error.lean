import InstrumentFlow.Bytecode.Operation
import InstrumentFlow.Value.Kind

/-!
# What can go wrong

Failures are causes; their wording stands in one `message` function per type.

* `EvalError` -- while an expression is evaluated;
* `FlowError` -- while a component runs or a host gives a command; it may wrap an `EvalError` with
  the activity that met it (`Activity`);
* `AssetError` -- while a definition is checked, read or written;
* `ConfigError` -- while limits are read.
-/

namespace InstrumentFlow

open Bytecode (Operation)

/-! ## 1. Evaluation -/

inductive EvalError where
  | stackOverflow (capacity : Nat)
  | stackUnderflow
  /-- The expression left other than one value. -/
  | malformedStack (depth : Nat)
  /-- No end instruction. -/
  | unterminated
  | constantOutOfRange (index : UInt16)
  | inputOutOfRange (slot : UInt16)
  | localOutOfRange (index : UInt16)
  | iteratorOutOfRange (index : Nat)
  | unknownOperation (index : UInt16)
  | arrayExpected
  | integerIndexExpected
  | indexOutOfBounds (index : Int) (size : Nat)
  | notAssignable (kind : ValueKind)
  | danglingReference
  | divisionByZero (op : Operation)
  | unsupportedOperands (op : Operation) (kinds : List ValueKind)
  /-- An array that contains itself has neither a text nor an end to its comparison. -/
  | endlessArray
  deriving DecidableEq, Repr

namespace EvalError

def operationFailed (op : Operation) (detail : String) : String :=
  let name := op.name
  s!"Operation '{name}' failed: {detail}"

def message : EvalError → String
  | stackOverflow capacity => s!"Evaluation stack overflow (capacity {capacity})"
  | stackUnderflow => "Evaluation stack underflow"
  | malformedStack depth =>
    s!"Malformed expression: expected exactly one value on the stack, found {depth}"
  | unterminated => "Instruction stream ended without an end instruction"
  | constantOutOfRange index => s!"Constant index {index} out of range"
  | .inputOutOfRange slot => s!"Input slot {slot} out of range"
  | localOutOfRange index => s!"Local variable {index} out of range"
  | iteratorOutOfRange index => s!"Iterator {index} out of range"
  | unknownOperation index => s!"Unknown operation {index}"
  | arrayExpected => "Array value expected"
  | integerIndexExpected => "Integer value expected for array element index"
  | indexOutOfBounds index size =>
    s!"Array element index {index} out of bounds (array size {size})"
  | notAssignable kind => "Assignable value expected, found " ++ kind.name
  | danglingReference => "Reference into a destroyed flow instance"
  | divisionByZero op => operationFailed op "integer division by zero"
  | unsupportedOperands op kinds =>
    operationFailed op
      ("unsupported operand types (" ++ ", ".intercalate (kinds.map ValueKind.name) ++ ")")
  | endlessArray => "Array contains itself"

end EvalError

/-! ## 2. Running flows -/

/-- What was being done when an evaluation failed. -/
inductive Activity where
  | property (property component : Nat)
  | scpiExpression
  | scpiTarget
  | readValue
  | readPropagated
  | readAssigned
  | advanceLoop
  deriving DecidableEq, Repr

def Activity.message : Activity → String
  | .property index place =>
    s!"Failed to evaluate property #{index} in component #{place}"
  | .scpiExpression => "Failed to evaluate SCPI expression"
  | .scpiTarget => "Failed to evaluate SCPI assignment target"
  | .readValue => "Failed to read value"
  | .readPropagated => "Failed to read propagated value"
  | .readAssigned => "Failed to read assigned value"
  | .advanceLoop => "Failed to advance loop variable"

/-- Why a request did not reach the instrument. -/
inductive Refusal where
  | noDispatcher
  | queueFull
  | receiverDropped
  | workerFull
  | workerStopped
  deriving DecidableEq, Repr

def Refusal.message : Refusal → String
  | .noDispatcher => "no SCPI dispatcher configured"
  | .queueFull => "SCPI request queue is full"
  | .receiverDropped => "SCPI request receiver dropped"
  | .workerFull => "SCPI worker queue is full"
  | .workerStopped => "SCPI worker stopped"

/-- What is wrong with the record of a component. -/
inductive Defect where
  | componentMissing
  | propertyMissing (property : Nat)
  | outputIndexMissing
  | valueInputMissing
  | outsideCalledFlow
  | partsEnd (offset : Nat)
  | truncatedLength
  | truncatedText
  | unknownPart (tag : UInt8)
  deriving DecidableEq, Repr

def Defect.message : Defect → String
  | .componentMissing => "component does not exist"
  | .propertyMissing property => s!"property {property} does not exist"
  | .outputIndexMissing => "missing parent output index"
  | .valueInputMissing => "missing value input"
  | .outsideCalledFlow => "output component outside of a called flow"
  | .partsEnd offset => s!"SCPI part stream ends at {offset}"
  | .truncatedLength => "truncated SCPI string length"
  | .truncatedText => "truncated SCPI string"
  | .unknownPart tag => s!"unknown SCPI part {tag}"

/-- What was no place to write to. -/
inductive BadDestination where
  | inputSlot
  | slot
  | globalVariable
  | value (kind : ValueKind)
  deriving DecidableEq, Repr

def BadDestination.name : BadDestination → String
  | .inputSlot => "input slot"
  | .slot => "slot"
  | .globalVariable => "global variable"
  | .value kind => kind.name

inductive FlowError where
  | evaluation (activity : Activity) (cause : EvalError)
  | queueFull
  /-- The transaction can no longer be answered. -/
  | resultUnavailable
  | dispatch (refusal : Refusal)
  | instrument (code : Int32) (text command : String)
  | invalidInstance
  | unknownFlow (index : Nat)
  | malformedComponent (flow component : Nat) (defect : Defect)
  | unknownComponent (code : UInt16)
  | assignOutOfBounds
  | invalidDestination (destination : BadDestination)
  | invalidCallTarget
  | readOnlyNative (id : UInt32)
  | raised (text : String)
  deriving DecidableEq, Repr

def FlowError.message : FlowError → String
  | .evaluation activity cause => activity.message ++ ": " ++ cause.message
  | .queueFull => "Execution queue is full"
  | .resultUnavailable => "SCPI result not available"
  | .dispatch refusal => "SCPI dispatch failed: " ++ refusal.message
  | .instrument _ text command => s!"SCPI '{text}': {command}"
  | .invalidInstance => "Flow instance is no longer alive"
  | .unknownFlow index => s!"Flow index {index} out of range"
  | .malformedComponent flow place defect =>
    s!"Component {place} of flow {flow} is malformed: " ++ defect.message
  | .unknownComponent code => s!"No handler registered for host component type {code}"
  | .assignOutOfBounds => "Can not assign, array element index out of bounds"
  | .invalidDestination destination =>
    "Value of type " ++ destination.name ++ " can not be used as an assignment destination"
  | .invalidCallTarget => "Invalid action flow index in CallAction"
  | .readOnlyNative id => s!"Native variable {id} is read-only"
  | .raised text => text

/-! ## 3. Assets and limits -/

/-- What is wrong with one component of a definition. -/
inductive Flaw where
  | inputOutOfRange (slot : UInt16)
  | catchOutOfRange (output : UInt16)
  | property (index : Nat) (cause : EvalError)
  | missingComponent (target : UInt16)
  | missingInput (target : UInt16)
  | missingFlow
  deriving DecidableEq, Repr

def Flaw.message : Flaw → String
  | .inputOutOfRange slot => s!"input slot {slot} out of range"
  | .catchOutOfRange output => s!"error catch output {output} out of range"
  | .property index cause => s!"property {index}: " ++ cause.message
  | .missingComponent target => s!"connection to missing component {target}"
  | .missingInput target => s!"connection to missing input slot {target}"
  | .missingFlow => "call action target flow missing"

/-- Why a definition is not accepted. -/
inductive Invalid where
  | firstConstant
  | secondConstant
  | component (flow component : Nat) (flaw : Flaw)
  deriving DecidableEq, Repr

def Invalid.message : Invalid → String
  | .firstConstant => "constant 0 must be undefined"
  | .secondConstant => "constant 1 must be null"
  | .component flow place flaw => s!"flow {flow} component {place}: " ++ flaw.message

/-- What the operating system said about a file. -/
inductive FileFault where
  | notFound
  | isDirectory
  | notDirectory
  | notUtf8
  /-- Anything else, in its own words. -/
  | other (text : String)
  deriving DecidableEq, Repr

def FileFault.message : FileFault → String
  | .notFound => "No such file or directory (os error 2)"
  | .isDirectory => "Is a directory (os error 21)"
  | .notDirectory => "Not a directory (os error 20)"
  | .notUtf8 => "stream did not contain valid UTF-8"
  | .other text => text

inductive AssetError where
  | file (path : String) (fault : FileFault)
  | encode
  | decode
  | json
  | invalid (reason : Invalid)
  deriving DecidableEq, Repr

/-- The wording of an asset failure. Where a reader of a format gave up is not told. -/
def AssetError.message : AssetError → String
  | .file path fault => s!"Could not access '{path}': " ++ fault.message
  | .encode => "Serialization failed"
  | .decode => "Deserialization failed"
  | .json => "Failed to parse asset JSON"
  | .invalid reason => "Invalid asset: " ++ reason.message

inductive ConfigError where
  | file (path : String) (fault : FileFault)
  | json
  deriving DecidableEq, Repr

def ConfigError.message : ConfigError → String
  | .file path fault => s!"Could not read config '{path}': " ++ fault.message
  | .json => "Failed to parse config JSON"

end InstrumentFlow
