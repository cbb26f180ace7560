import InstrumentFlow.Error
import InstrumentFlow.Numeric.Arithmetic
import InstrumentFlow.Text.Utf8
import InstrumentFlow.Value.Convert
import InstrumentFlow.Value.Equality

/-!
# Operations on values

What the built-in operations yield on plain values, without a stack.

* `Promotion`, `promote?` -- the kind of number in which two operands meet;
* `arithmetic` -- the five arithmetic operations;
* `bitwise`, `compare`, `unary`, `binary` -- the other operations by their count of operands;
* `Fallible` -- the failures: operands of unfit kinds, division by zero, endless arrays.
-/

namespace InstrumentFlow.Expression

open Bytecode Numeric

abbrev Fallible := Except EvalError

/-- The failure of an operation on operands that it does not take. -/
def unsupported (op : Operation) (operands : List Value) : Fallible α :=
  .error (.unsupportedOperands op (operands.map Value.kind))

/-! ## 1. Arithmetic -/

inductive Promotion where
  | int
  | float
  | double
  deriving DecidableEq, Repr

/-- The rank of one operand: truth values count as integers. -/
def Promotion.of? : Value → Option Promotion
  | .int _ | .boolean _ => some .int
  | .float _ => some .float
  | .double _ => some .double
  | _ => none

/-- The wider of two ranks. -/
def Promotion.join : Promotion → Promotion → Promotion
  | .double, _ | _, .double => .double
  | .float, _ | _, .float => .float
  | .int, .int => .int

def promote? (a b : Value) : Option Promotion := do
  return (← Promotion.of? a).join (← Promotion.of? b)

/-- An arithmetic operation on binary numbers. -/
def arithmeticBinary {f : Format} (op : Operation) (x y : Binary f) : Binary f :=
  match op with
  | .add => x.add y
  | .sub => x.sub y
  | .mul => x.mul y
  | .div => x.div y
  | _ => x.rem y

/-- An arithmetic operation on 32-bit integers, which wraps. A quotient has no value for the divisor
    zero, nor where it would not fit. -/
def arithmeticInt? (op : Operation) (x y : Int32) : Option Int32 :=
  match op with
  | .add => some (x + y)
  | .sub => some (x - y)
  | .mul => some (x * y)
  | .div => if y = 0 ∨ (x = Int32.minValue ∧ y = -1) then none else some (x / y)
  | _ => if y = 0 ∨ (x = Int32.minValue ∧ y = -1) then none else some (x % y)

/-- **An arithmetic operation**, in the wider kind of its operands. -/
def arithmetic (op : Operation) (a b : Value) : Fallible Value :=
  match promote? a b with
  | none => unsupported op [a, b]
  | some .double => .ok (.double (arithmeticBinary op a.toDouble b.toDouble))
  | some .float => .ok (.float (arithmeticBinary op a.toFloat b.toFloat))
  | some .int =>
    match arithmeticInt? op a.toInt32 b.toInt32 with
    | some i => .ok (.int i)
    | none => .error (.divisionByZero op)

/-! ## 2. Bits -/

/-- A shift or a bitwise operation; shifts count modulo 32. -/
def bitwiseInt (op : Operation) (x y : Int32) : Int32 :=
  match op with
  | .leftShift => x <<< y
  | .rightShift => x >>> y
  | .binaryAnd => x &&& y
  | .binaryOr => x ||| y
  | _ => x ^^^ y

def bitwise (op : Operation) (a b : Value) : Fallible Value :=
  match a, b with
  | .int x, .int y => .ok (.int (bitwiseInt op x y))
  | _, _ => unsupported op [a, b]

/-! ## 3. Elementary functions -/

def elementaryDouble (op : Operation) (x : Binary64) : Binary64 :=
  match op with
  | .mathSin => x.sin
  | .mathCos => x.cos
  | _ => x.log

/-- Sine, cosine or logarithm. A 32-bit number goes by way of 64 bits and back. -/
def elementary (op : Operation) (a : Value) : Fallible Value :=
  match a with
  | .float x => .ok (.float ((elementaryDouble op (x.convert .double)).convert .single))
  | .int _ | .double _ => .ok (.double (elementaryDouble op a.toDouble))
  | a => unsupported op [a]

/-! ## 4. One operand -/

/-- An integer as a 64-bit list position; negative ones lie beyond every list. -/
def iteratorIndex (i : Int32) : Nat := (i.toInt % twoTo 64).toNat

/-- An operation on one value; `iterators` are the loop positions of the caller. -/
def unary (h : Heap) (iterators : List Int32) (op : Operation) (a : Value) : Fallible Value :=
  match op, a with
  | .unaryPlus, a => if a.isNumber then .ok a else unsupported op [a]
  | .unaryMinus, .int i => .ok (.int (-i))
  | .unaryMinus, .float x => .ok (.float x.negate)
  | .unaryMinus, .double x => .ok (.double x.negate)
  | .binaryOneComplement, .int i => .ok (.int (~~~i))
  | .not, a => .ok (.boolean !(a.toBool h))
  | .flowIterator, a =>
    let index := iteratorIndex a.toInt32
    match iterators[index]? with
    | some i => .ok (.int i)
    | none => .error (.iteratorOutOfRange index)
  | .mathSin, a | .mathCos, a | .mathLog, a => elementary op a
  | op, a => unsupported op [a]

/-! ## 5. Two operands -/

/-- An answer, or the failure that there is none. -/
def orEndless (x : Option α) : Fallible α :=
  match x with
  | some a => .ok a
  | none => .error .endlessArray

/-- The texts of two values, one after the other. -/
def concatenate (h : Heap) (a b : Value) : Fallible Value := do
  let s ← orEndless (h.text? a)
  let t ← orEndless (h.text? b)
  return .string (s ++ t)

/-- The place of one text in another, or -1: the bytes are searched, and the characters in front of
    the byte that is found are counted. -/
def findText (haystack needle : String) : Int32 :=
  match Text.findByte? haystack needle with
  | some byte => Int32.ofNat (Text.scans ((Text.encodeUtf8 haystack).take byte)).length
  | none => -1

/-- A comparison by size, as numbers. -/
def compare (op : Operation) (a b : Value) : Bool :=
  let x := a.toDouble
  let y := b.toDouble
  match op with
  | .less => x.less y
  | .greater => y.less x
  | .lessOrEqual => x.lessOrEqual y
  | _ => y.lessOrEqual x

/-- **An operation on two values.** -/
def binary (h : Heap) (op : Operation) (a b : Value) : Fallible Value :=
  match op with
  | .add => if a.isString || b.isString then concatenate h a b else arithmetic op a b
  | .sub | .mul | .div | .mod => arithmetic op a b
  | .leftShift | .rightShift | .binaryAnd | .binaryOr | .binaryXor => bitwise op a b
  | .equal => (orEndless (h.equal? a b)).map .boolean
  | .notEqual => (orEndless (h.equal? a b)).map fun same => .boolean !same
  | .less | .greater | .lessOrEqual | .greaterOrEqual => .ok (.boolean (compare op a b))
  | .logicalAnd => .ok (.boolean (a.toBool h && b.toBool h))
  | .logicalOr => .ok (.boolean (a.toBool h || b.toBool h))
  | .stringFind =>
    match a, b with
    | .string haystack, .string needle => .ok (.int (findText haystack needle))
    | _, _ => unsupported op [a, b]
  | op => unsupported op [a, b]

end InstrumentFlow.Expression
