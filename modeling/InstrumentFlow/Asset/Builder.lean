import InstrumentFlow.Asset.Definition

/-!
# Building definitions

Small steps that put a definition together. Each step that adds something also answers the number
under which it can be reached; numbers that travel in 16-bit fields are cut to 16 bits.

* `Definition.addConstant`, `addGlobal`, `addFlow`;
* `Flow.named`, `addInput`, `addLocal`, `addComponent`, `connect`;
* `Component.ofKind` and the `with…` steps.
-/

namespace InstrumentFlow

/-- The number of the last of `count` things. -/
def lastIndex (count : Nat) : UInt16 := UInt16.ofNat (count - 1)

/-! ## 1. Definitions -/

namespace Definition

def addConstant (d : Definition) (l : Literal) : UInt16 × Definition :=
  let constants := d.constants ++ [l]
  (lastIndex constants.length, { d with constants })

def addGlobal (d : Definition) (l : Literal) : UInt16 × Definition :=
  let globals := d.globals ++ [l]
  (lastIndex globals.length, { d with globals })

/-- The number that the next flow will get, so that calls can name it beforehand. -/
def nextFlowIndex (d : Definition) : Nat := d.flows.length

def addFlow (d : Definition) (f : Flow) : Nat × Definition :=
  (d.flows.length, { d with flows := d.flows ++ [f] })

end Definition

/-! ## 2. Components -/

namespace Component

/-- A component with a pulse output and nothing else. -/
def ofKind (kind : Kind) : Component := { kind, outputs := [{ isSequence := true }] }

def withInputs (c : Component) (slots : List UInt16) : Component :=
  { c with inputs := c.inputs ++ slots }

def withProperty (c : Component) (instructions : List UInt8) : Component :=
  { c with properties := c.properties ++ [⟨instructions⟩] }

/-- At least `count` outputs; missing ones are plain. -/
def withOutputs (c : Component) (count : Nat) : Component :=
  { c with outputs := c.outputs ++ List.replicate (count - c.outputs.length) {} }

/-- Errors leave through this output, which is made if it is missing. -/
def withCatchOutput (c : Component) (output : UInt16) : Component :=
  { c.withOutputs (output.toNat + 1) with catchOutput := some output }

def withPayload (c : Component) (payload : List UInt8) : Component := { c with payload }

/-- A call target or an output number as payload, low byte first. -/
def withTarget (c : Component) (index : UInt16) : Component :=
  c.withPayload [index.toUInt8, (index >>> 8).toUInt8]

def withBreakpoint (c : Component) : Component := { c with breakpoint := true }

/-- Adds a connection at the end of an output, which is made if it is missing. -/
def addConnection (c : Component) (output : Nat) (connection : Connection) : Component :=
  let c := c.withOutputs (output + 1)
  { c with
    outputs := c.outputs.modify output fun o =>
      { o with connections := o.connections ++ [connection] } }

end Component

/-! ## 3. Flows -/

namespace Flow

def named (name : String) : Flow := { name }

def addInput (f : Flow) (flags : UInt8) : UInt16 × Flow :=
  let inputFlags := f.inputFlags ++ [flags]
  (lastIndex inputFlags.length, { f with inputFlags })

def addSequenceInput (f : Flow) : UInt16 × Flow := f.addInput sequenceFlag

def addDataInput (f : Flow) : UInt16 × Flow := f.addInput 0

def addOptionalInput (f : Flow) : UInt16 × Flow := f.addInput optionalFlag

def addLocal (f : Flow) (l : Literal) : UInt16 × Flow :=
  let locals := f.locals ++ [l]
  (lastIndex locals.length, { f with locals })

def addComponent (f : Flow) (c : Component) : Nat × Flow :=
  (f.components.length, { f with components := f.components ++ [c] })

/-- Wires an output of the component `source` to the input `slot`, read by the component `target`.
    Without such a component nothing happens. -/
def connect (f : Flow) (source output target : Nat) (slot : UInt16) : Flow :=
  let connection : Connection := ⟨UInt16.ofNat target, slot, f.isSequenceInput slot.toNat⟩
  { f with components := f.components.modify source (·.addConnection output connection) }

end Flow

end InstrumentFlow
