import InstrumentFlow.Asset.Builder
import InstrumentFlow.Bytecode.Assembler
import InstrumentFlow.Scpi.Program

/-!
# The sample definition

* `sampleDefinition` -- a definition that identifies the instrument, sets its voltage three times in
  a loop, measures it and logs the result.
-/

namespace InstrumentFlow.CommandLine

open Bytecode Numeric

/-! ## 1. Expressions -/

def constantStream (index : UInt16) : List UInt8 := (({} : Assembler).constant index).finish

def localStream (index : UInt16) : List UInt8 := (({} : Assembler).local index).finish

/-! ## 2. The definition -/

/-- The numbers of the constants of the sample. -/
structure SampleConstants where
  five : UInt16
  zero : UInt16
  three : UInt16
  one : UInt16
  label : UInt16

/-- Adds the constants of the sample. -/
def addSampleConstants : StateM Definition SampleConstants := do
  let five ← modifyGet (·.addConstant (.float (.ofInt 5)))
  let zero ← modifyGet (·.addConstant (.int 0))
  let three ← modifyGet (·.addConstant (.int 3))
  let one ← modifyGet (·.addConstant (.int 1))
  let label ← modifyGet (·.addConstant (.string "Measured voltage: "))
  return { five, zero, three, one, label }

/-- The components of the sample and their wires, in a flow without any. -/
def addSampleComponents (constants : SampleConstants) : StateM Flow Unit := do
  let identifyTrigger ← modifyGet (·.addSequenceInput)
  let loopTrigger ← modifyGet (·.addSequenceInput)
  let setTrigger ← modifyGet (·.addSequenceInput)
  let measureTrigger ← modifyGet (·.addSequenceInput)
  let logTrigger ← modifyGet (·.addSequenceInput)
  let endTrigger ← modifyGet (·.addSequenceInput)
  let identity ← modifyGet (·.addLocal .null)
  let counter ← modifyGet (·.addLocal (.int 0))
  let voltage ← modifyGet (·.addLocal .null)
  let start ← modifyGet (·.addComponent (.ofKind .start))
  let identify ← modifyGet (·.addComponent
    (((Component.ofKind .scpi).withInputs [identifyTrigger]).withPayload
      ((({} : Scpi.Program).text "*IDN?").queryAssign (localStream identity)).finish))
  let repeated ← modifyGet (·.addComponent
    ((((((Component.ofKind .loop).withInputs [loopTrigger]).withProperty
      (localStream counter)).withProperty (constantStream constants.zero)).withProperty
      (constantStream constants.three)).withProperty (constantStream constants.one)
      |>.withOutputs 2))
  let set ← modifyGet (·.addComponent
    (((Component.ofKind .scpi).withInputs [setTrigger]).withPayload
      ((({} : Scpi.Program).text "VOLT ").expression (constantStream constants.five)
        |>.command.finish)))
  let measure ← modifyGet (·.addComponent
    (((Component.ofKind .scpi).withInputs [measureTrigger]).withPayload
      ((({} : Scpi.Program).text "MEAS:VOLT?").queryAssign (localStream voltage)).finish))
  let log ← modifyGet (·.addComponent
    (((Component.ofKind .log).withInputs [logTrigger]).withProperty
      (((({} : Assembler).constant constants.label).local voltage).apply .add).finish))
  let finish ← modifyGet (·.addComponent ((Component.ofKind .finish).withInputs [endTrigger]))
  modify (·.connect start sequenceOutput identify identifyTrigger)
  modify (·.connect identify sequenceOutput repeated loopTrigger)
  modify (·.connect repeated sequenceOutput set setTrigger)
  modify (·.connect set sequenceOutput repeated loopTrigger)
  modify (·.connect repeated 1 measure measureTrigger)
  modify (·.connect measure sequenceOutput log logTrigger)
  modify (·.connect log sequenceOutput finish endTrigger)

/-- **The sample definition.** -/
def sampleDefinition : Definition :=
  let (constants, definition) := addSampleConstants.run {}
  let (_, flow) := (addSampleComponents constants).run (.named "sample")
  (definition.addFlow flow).2

end InstrumentFlow.CommandLine
