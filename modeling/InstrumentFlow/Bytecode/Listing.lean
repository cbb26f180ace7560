import InstrumentFlow.Bytecode.Stream

/-!
# Listings of expressions

* `instructionText` -- one instruction, its name padded to a column;
* `streamLines` -- one line per word, numbered, with an indent;
* `disassemble` -- the listing of one stream.
-/

namespace InstrumentFlow.Bytecode

/-- A number with at least `width` digits. -/
def padNumber (width n : Nat) : String :=
  let digits := Nat.toDigits 10 n
  String.ofList (List.replicate (width - digits.length) '0' ++ digits)

/-- A word, blanks up to the operand column, and the operand. -/
def withOperand (word operand : String) : String :=
  word ++ String.ofList (List.replicate (16 - word.length) ' ') ++ " " ++ operand

def instructionText : Instruction → String
  | .pushConstant index => withOperand "PUSH_CONST" s!"#{index}"
  | .pushInput slot => withOperand "PUSH_INPUT" s!"#{slot}"
  | .pushLocal index => withOperand "PUSH_LOCAL" s!"#{index}"
  | .pushGlobal index => withOperand "PUSH_GLOBAL" s!"#{index}"
  | .pushOutput index => withOperand "PUSH_OUTPUT" s!"#{index}"
  | .arrayElement => "ARRAY_ELEMENT"
  | .operation index =>
    match Operation.ofIndex? index.toNat with
    | some op => withOperand "OPERATION" op.name
    | none => withOperand "OPERATION" s!"?{index}"
  | .stop => "END"

def numberedLine (indent : String) (number : Nat) (text : String) : String :=
  indent ++ padNumber 4 number ++ ": " ++ text

/-- The lines of a stream, the first of which has the given number. -/
def streamLines (indent : String) (number : Nat) : List UInt8 → List String
  | low :: high :: rest =>
    let i := Instruction.ofWord (Instruction.wordOfBytes low high)
    let line := numberedLine indent number (instructionText i)
    if i = .stop then [line] else line :: streamLines indent (number + 1) rest
  | _ => [numberedLine indent number "<unterminated>"]

/-- Lines with a line end after each. -/
def joinLines (lines : List String) : String := String.join (lines.map (· ++ "\n"))

/-- **The listing of a stream**, one word per line up to its end. -/
def disassemble (bytes : List UInt8) : String := joinLines (streamLines "" 0 bytes)

end InstrumentFlow.Bytecode
