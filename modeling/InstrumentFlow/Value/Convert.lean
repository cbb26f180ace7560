import InstrumentFlow.Numeric.Decimal
import InstrumentFlow.Numeric.Shortest
import InstrumentFlow.Text.Basic
import InstrumentFlow.Value.Basic

/-!
# Values as numbers, truth values and texts

* `Value.toDouble`, `toFloat`, `toInt32` -- the number a value stands for; what stands for none is
  zero. Texts are read without the blanks at their ends;
* `Value.index?` -- a whole number, for array indexing;
* `Value.toBool` -- truth: zero, nothing, the empty text and the empty array are false;
* `numberLayout` -- how values of the two binary kinds are written;
* `Heap.text?` -- the text of a value; an array that contains itself has none.
-/

namespace InstrumentFlow

open Numeric

/-! ## 1. Numbers and truth values -/

namespace Value

def toDouble : Value → Binary64
  | int i => .ofInt i.toInt
  | float x => x.convert .double
  | double x => x
  | boolean b => .ofInt (if b then 1 else 0)
  | string s => (readBinary? .double (Text.trim s.toList)).getD .zero
  | _ => .zero

def toFloat : Value → Binary32
  | float x => x
  | v => v.toDouble.convert .single

def toInt32 : Value → Int32
  | int i => i
  | float x => x.toInt32
  | double x => x.toInt32
  | boolean b => if b then 1 else 0
  | string s => (readInt32? (Text.trim s.toList)).getD 0
  | _ => 0

/-- The value as an index. Fractions and other kinds give none. -/
def index? : Value → Option Int
  | int i => some i.toInt
  | float x => if x.isWhole then some x.toInt64 else none
  | double x => if x.isWhole then some x.toInt64 else none
  | _ => none

def toBool (h : Heap) : Value → Bool
  | undefined | null => false
  | int i => i != 0
  | float x => !x.isZero
  | double x => !x.isZero
  | boolean b => b
  | string s => !s.isEmpty
  | array a => !(h.elements a).isEmpty
  | _ => true

end Value

/-! ## 2. Texts -/

/-- Numbers are written without an exponent whatever their size, whole ones without a point. -/
def numberLayout : Layout := ⟨.up, none, false, "NaN", "inf"⟩

/-- The text of a value that is no array. -/
def Value.plainText : Value → String
  | .undefined => ""
  | .null => "null"
  | .int i => toString i.toInt
  | .float x => numberLayout.text x
  | .double x => numberLayout.text x
  | .boolean b => if b then "true" else "false"
  | .string s => s
  | .array _ => ""
  | .slot _ index => s!"&slot{index}"
  | .global index => s!"&global{index}"
  | .output index => s!"&output{index}"
  | .native id => s!"&native{id}"
  | .element _ index => s!"&element{index}"

/-- The text of a value, following at most `depth` arrays inside each other. -/
def Heap.textWithin (h : Heap) : Nat → Value → Option String
  | 0, .array _ => none
  | depth + 1, .array a =>
    ((h.elements a).toList.mapM (h.textWithin depth)).map fun parts =>
      "[" ++ ", ".intercalate parts ++ "]"
  | _, v => some v.plainText

/-- **The text of a value**: elements stand between brackets, parted by commas. -/
def Heap.text? (h : Heap) (v : Value) : Option String := h.textWithin (h.cells.size + 1) v

end InstrumentFlow
