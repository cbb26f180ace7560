import InstrumentFlow.Asset.Definition
import InstrumentFlow.Bytecode.Stream

/-!
# Sound definitions

What a definition must satisfy before it runs. The checks go through the flows and components in
order, and the first failure is reported.

* `Component.flaw?` -- what is wrong with one component of a flow;
* `Definition.invalid?` -- what is wrong with a definition;
* `Definition.validate` -- the same as a failure.
-/

namespace InstrumentFlow

/-- The flaw of a property: an expression that is not empty must have an end. -/
def Property.flaw? (index : Nat) (p : Property) : Option Flaw :=
  if p.instructions.isEmpty then none
  else
    match Bytecode.decode p.instructions with
    | .ok _ => none
    | .error e => some (.property index e)

/-- The flaw of a connection inside a flow: it must lead to a component and an input slot. -/
def Connection.flaw? (f : Flow) (c : Connection) : Option Flaw :=
  if f.components.length ≤ c.targetComponent.toNat then some (.missingComponent c.targetComponent)
  else if f.inputCount ≤ c.targetInput.toNat then some (.missingInput c.targetInput)
  else none

namespace Component

def inputFlaw? (f : Flow) (c : Component) : Option Flaw :=
  (c.inputs.find? fun slot => f.inputCount ≤ slot.toNat).map .inputOutOfRange

def catchFlaw? (c : Component) : Option Flaw :=
  match c.catchOutput with
  | some output => if c.outputs.length ≤ output.toNat then some (.catchOutOfRange output) else none
  | none => none

def propertyFlaw? (c : Component) : Option Flaw :=
  c.properties.zipIdx.findSome? fun (p, index) => p.flaw? index

def connectionFlaw? (f : Flow) (c : Component) : Option Flaw :=
  (c.outputs.flatMap (·.connections)).findSome? (·.flaw? f)

/-- The call target must be a flow of the definition. -/
def callFlaw? (flowCount : Nat) (c : Component) : Option Flaw :=
  if c.kind = .callAction then
    match c.target? with
    | some target => if target.toNat < flowCount then none else some .missingFlow
    | none => some .missingFlow
  else none

/-- **The first flaw of a component**: inputs, catch output, properties, connections, call
    target. -/
def flaw? (flowCount : Nat) (f : Flow) (c : Component) : Option Flaw :=
  c.inputFlaw? f <|> c.catchFlaw? <|> c.propertyFlaw? <|> c.connectionFlaw? f
    <|> c.callFlaw? flowCount

end Component

namespace Definition

/-- The first flaw of a flow, with its place. -/
def flowInvalid? (flowCount flowIndex : Nat) (f : Flow) : Option Invalid :=
  f.components.zipIdx.findSome? fun (c, index) =>
    (c.flaw? flowCount f).map (.component flowIndex index)

/-- **What is wrong with a definition**, if anything. -/
def invalid? (d : Definition) : Option Invalid :=
  if !(d.constants[0]?.any Literal.isUndefined) then some .firstConstant
  else if !(d.constants[1]?.any Literal.isNull) then some .secondConstant
  else d.flows.zipIdx.findSome? fun (f, index) => flowInvalid? d.flows.length index f

def validate (d : Definition) : Except AssetError Unit :=
  match d.invalid? with
  | some reason => .error (.invalid reason)
  | none => .ok ()

end Definition

end InstrumentFlow
