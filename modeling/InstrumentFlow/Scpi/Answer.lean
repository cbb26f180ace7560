import InstrumentFlow.Numeric.Decimal
import InstrumentFlow.Value.Basic

/-!
# Answers of an instrument

* `trimLineEnds` -- an answer without the line ends after it;
* `unquote?` -- the text of a quoted answer, in which every inner quotation mark is doubled;
* `answerValue` -- the value of an answer.
-/

namespace InstrumentFlow.Scpi

open Numeric

def isLineEnd (c : Char) : Bool := c == '\r' || c == '\n'

def trimLineEnds (cs : List Char) : List Char := (cs.reverse.dropWhile isLineEnd).reverse

/-- The text between quotation marks, if quotation marks occur in it in pairs only. -/
def undouble? : List Char → Option (List Char)
  | [] => some []
  | '"' :: '"' :: rest => (undouble? rest).map ('"' :: ·)
  | c :: rest => if c = '"' then none else (undouble? rest).map (c :: ·)

/-- The text of an answer that stands between quotation marks as a whole. -/
def unquote? : List Char → Option (List Char)
  | '"' :: rest =>
    match rest.reverse with
    | '"' :: inner => undouble? inner.reverse
    | _ => none
  | _ => none

/-- **The value of an answer**: nothing is zero; a quoted text, a 32-bit integer and a number are
    read as such, in this order; every other answer is a text. -/
def answerValue (answer : String) : Value :=
  let cs := trimLineEnds answer.toList
  if cs.isEmpty then .int 0
  else
    match unquote? cs with
    | some inner => .string (String.ofList inner)
    | none =>
      match readInt32? cs with
      | some i => .int i
      | none =>
        match readBinary? .single cs with
        | some x => .float x
        | none => .string (String.ofList cs)

end InstrumentFlow.Scpi
