import InstrumentFlow.Numeric.Decimal
import InstrumentFlow.Scpi.Transaction
import InstrumentFlow.Text.Basic
import InstrumentFlow.Value.Convert

/-!
# A simulated instrument

A power supply that stands in for a real instrument: it has a voltage that can be set and measured.

* `Simulator` -- the state of the instrument;
* `Simulator.obey`, `Simulator.ask` -- one command, one query;
* `Simulator.serve` -- one request;
* `Simulator.errorTexts` -- the texts of the errors that it reports.
-/

namespace InstrumentFlow.Scpi

open Numeric

structure Simulator where
  voltage : Binary32 := .zero

namespace Simulator

def undefinedHeader : Int32 := -113

def illegalValue : Int32 := -224

/-- The texts of the errors, by their codes. -/
def errorTexts : List (Int32 × String) :=
  [(undefinedHeader, "Undefined header"), (illegalValue, "Illegal parameter value")]

/-- The words before the number of a command that sets the voltage. -/
def voltageHeader : List Char := "VOLT ".toList

/-- Obeys a command. One that does not set the voltage changes nothing and succeeds. -/
def obey (s : Simulator) (text : List Char) : Response × Simulator :=
  if voltageHeader.isPrefixOf text then
    match readBinary? .single (Text.trim (text.drop voltageHeader.length)) with
    | some voltage => (⟨"", 0⟩, { s with voltage })
    | none => (⟨"", illegalValue⟩, s)
  else (⟨"", 0⟩, s)

/-- Answers a query. -/
def ask (s : Simulator) (text : List Char) : Response :=
  match String.ofList text with
  | "*IDN?" => ⟨"\"BENCHFLOW,SIMULATOR,0,1.0\"", 0⟩
  | "VOLT?" | "MEAS:VOLT?" => ⟨numberLayout.text s.voltage, 0⟩
  | "MEAS:CURR?" => ⟨"0.125", 0⟩
  | _ => ⟨"", undefinedHeader⟩

/-- **Serves one request**; blanks around its text have no meaning. -/
def serve (s : Simulator) (r : Request) : Response × Simulator :=
  let text := Text.trim r.text.toList
  match r.kind with
  | .command => s.obey text
  | .query => (s.ask text, s)

end Simulator

end InstrumentFlow.Scpi
