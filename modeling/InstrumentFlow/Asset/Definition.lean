import InstrumentFlow.Literal

/-!
# Definitions

A definition is a compiled program: flows, each a graph of components, and the constants and global
variables that they share.

* `Kind` -- the types of components;
* `Connection`, `Output`, `Property`, `Component`, `Flow`, `Definition` -- the records;
* `Component.target?` -- the number at the front of a payload;
* `Flow.isSequenceInput`, `isOptionalInput`, `inputCount`, `slotCount` -- the slots of a flow;
* `Definition.same` -- equality of what two definitions say.
-/

namespace InstrumentFlow

/-! ## 1. Components -/

inductive Kind where
  | start | finish | output | callAction | evalExpr | setVariable | isTrue | constant | log
  | delay | loop | error | catchError | noop | scpi
  /-- Implemented by the host under this code. -/
  | host (code : UInt16)
  deriving DecidableEq, Repr

/-- A wire from an output to an input slot, read by a component. -/
structure Connection where
  targetComponent : UInt16
  targetInput : UInt16
  /-- The wire carries a pulse that is used up when the target is queued. -/
  isSequence : Bool
  deriving DecidableEq, Repr

structure Output where
  isSequence : Bool := false
  connections : List Connection := []
  deriving DecidableEq, Repr

/-- An expression of a component, as an instruction stream. -/
structure Property where
  instructions : List UInt8 := []
  deriving DecidableEq, Repr

structure Component where
  kind : Kind
  breakpoint : Bool := false
  /-- The input slots of the flow that the component reads. -/
  inputs : List UInt16 := []
  properties : List Property := []
  outputs : List Output := []
  /-- The output that receives the component's errors. -/
  catchOutput : Option UInt16 := none
  /-- What only this kind needs: the parts of a command text, a call target, an output number. -/
  payload : List UInt8 := []
  deriving DecidableEq, Repr

/-- Output 0 of every component carries its pulse. -/
def sequenceOutput : Nat := 0

/-- The number in the first two bytes of the payload, low byte first. -/
def Component.target? (c : Component) : Option UInt16 :=
  match c.payload with
  | low :: high :: _ => some (low.toUInt16 ||| (high.toUInt16 <<< 8))
  | _ => none

/-! ## 2. Flows and definitions -/

structure Flow where
  name : String := ""
  components : List Component := []
  /-- The flags of every input slot. -/
  inputFlags : List UInt8 := []
  locals : List Literal := []

namespace Flow

/-- The flag of a slot that receives pulses. -/
def sequenceFlag : UInt8 := 1

/-- The flag of a slot that a component can do without. -/
def optionalFlag : UInt8 := 2

def inputCount (f : Flow) : Nat := f.inputFlags.length

def slotCount (f : Flow) : Nat := f.inputFlags.length + f.locals.length

/-- Whether a slot is an input with the given flag. -/
def hasFlag (f : Flow) (flag : UInt8) (slot : Nat) : Bool :=
  match f.inputFlags[slot]? with
  | some flags => flags &&& flag != 0
  | none => false

def isSequenceInput (f : Flow) (slot : Nat) : Bool := f.hasFlag sequenceFlag slot

def isOptionalInput (f : Flow) (slot : Nat) : Bool := f.hasFlag optionalFlag slot

end Flow

structure Definition where
  flows : List Flow := []
  /-- The first two are reserved: nothing, and null. -/
  constants : List Literal := [.undefined, .null]
  globals : List Literal := []

namespace Definition

/-- A component of a flow. -/
def component? (d : Definition) (flow component : Nat) : Option Component :=
  d.flows[flow]?.bind (·.components[component]?)

end Definition

/-! ## 3. Equality -/

def Flow.same (f g : Flow) : Bool :=
  f.name == g.name && f.components == g.components && f.inputFlags == g.inputFlags
    && Literal.sameList f.locals g.locals

/-- Two lists of flows pairwise the same, and equally many. -/
def Flow.sameList : List Flow → List Flow → Bool
  | [], [] => true
  | f :: fs, g :: gs => f.same g && sameList fs gs
  | _, _ => false

/-- **Two definitions say the same.** Literals compare as numbers do. -/
def Definition.same (d e : Definition) : Bool :=
  Flow.sameList d.flows e.flows && Literal.sameList d.constants e.constants
    && Literal.sameList d.globals e.globals

end InstrumentFlow
