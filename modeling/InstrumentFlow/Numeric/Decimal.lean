import InstrumentFlow.Numeric.Binary

/-!
# Reading decimal notation

* `digitValue?`, `digitsValue` -- decimal digits and the number that a run of them writes;
* `Decimal` -- an exact decimal number, and `Decimal.toBinary`, its nearest binary number;
* `readInteger?` -- an optional sign and digits, nothing else;
* `readInt32?` -- the same within 32 bits;
* `readBinary?` -- a decimal number with optional sign, point and exponent, or the name of an
  infinity or of no number in any mixture of upper and lower case.
-/

namespace InstrumentFlow.Numeric

/-! ## 1. Digits -/

def isDigit (c : Char) : Bool := '0' ≤ c && c ≤ '9'

def digitValue (c : Char) : Nat := c.toNat - '0'.toNat

/-- The number that a list of digits writes, most significant first. -/
def digitsValue (cs : List Char) : Nat :=
  cs.foldl (fun n c => 10 * n + digitValue c) 0

/-- A leading sign, as "is negative", and the rest. -/
def splitSign : List Char → Bool × List Char
  | '-' :: cs => (true, cs)
  | '+' :: cs => (false, cs)
  | cs => (false, cs)

/-- An integer: an optional sign and at least one digit. -/
def readInteger? (cs : List Char) : Option Int :=
  let (negative, digits) := splitSign cs
  if digits.isEmpty || !digits.all isDigit then none
  else
    let n : Int := digitsValue digits
    some (if negative then -n else n)

/-- An integer that fits 32 bits. -/
def readInt32? (cs : List Char) : Option Int32 :=
  match readInteger? cs with
  | some i => if -(twoTo 31 : Int) ≤ i ∧ i < twoTo 31 then some (Int32.ofInt i) else none
  | none => none

/-! ## 2. Decimal numbers -/

/-- The number `± significand * 10 ^ exponent`. -/
structure Decimal where
  negative : Bool
  significand : Nat
  exponent : Int
  deriving DecidableEq, Repr

/-- No format in use has finite numbers of `10 ^ decimalReach` and above, or numbers other than
    zero below `10 ^ -decimalReach`. -/
def decimalReach : Int := 400

/-- The nearest binary number. Numbers far outside the reach of every format are settled by their
    magnitude alone, so that no huge power is formed. -/
def Decimal.toBinary (f : Format) (d : Decimal) : Binary f :=
  if d.significand = 0 then .ofRank d.negative 0
  else
    let places : Int := (Nat.toDigits 10 d.significand).length
    if d.exponent + places > decimalReach then .infinity d.negative
    else if d.exponent + places < -decimalReach then .ofRank d.negative 0
    else .ofRatio d.negative (d.significand * tenTo d.exponent.toNat) (tenTo (-d.exponent).toNat)

/-- The exponent part: nothing, or `e` with an integer. -/
def readExponent? : List Char → Option Int
  | [] => some 0
  | c :: cs => if c = 'e' ∨ c = 'E' then readInteger? cs else none

/-- Digits, optionally a point and further digits, optionally an exponent; at least one digit
    stands before or after the point. -/
def readMagnitude? (negative : Bool) (cs : List Char) : Option Decimal :=
  let whole := cs.takeWhile isDigit
  let (fraction, tail) :=
    match cs.dropWhile isDigit with
    | '.' :: more => (more.takeWhile isDigit, more.dropWhile isDigit)
    | rest => ([], rest)
  if whole.isEmpty && fraction.isEmpty then none
  else
    match readExponent? tail with
    | some exponent =>
      some ⟨negative, digitsValue (whole ++ fraction), exponent - fraction.length⟩
    | none => none

/-- **A number as people write it**: a decimal number, `inf`, `infinity` or `nan`. -/
def readBinary? (f : Format) (cs : List Char) : Option (Binary f) :=
  let (negative, body) := splitSign cs
  let name := body.map Char.toLower
  if name = "inf".toList ∨ name = "infinity".toList then some (.infinity negative)
  else if name = "nan".toList then some .nan
  else (readMagnitude? negative body).map (·.toBinary f)

end InstrumentFlow.Numeric
