import InstrumentFlow.Json.Basic
import InstrumentFlow.Numeric.Arithmetic
import InstrumentFlow.Numeric.Decimal
import InstrumentFlow.Numeric.Shortest

/-!
# Numbers in JSON

Reading:

* `Spelling` -- the parts of a number as it is written;
* `Spelling.integer?` -- whole numbers written without point and exponent;
* `Spelling.double?` -- the 64-bit number: at most 64 bits of the digits are kept, and one product
  or quotient with a power of ten gives the result, which therefore may differ from the nearest
  number in its last place.

Writing: `doubleLayout`, `singleLayout` and `ofBinary`.
-/

namespace InstrumentFlow.Json

open Numeric

/-! ## 1. The parts of a spelling -/

/-- A number as written: the sign, the digits before the point, the digits after it if there is
    one, and sign and digits of the exponent if there is one. -/
structure Spelling where
  negative : Bool
  whole : List Char
  fraction : Option (List Char)
  exponent : Option (Bool × List Char)

/-- Takes a correct spelling apart. -/
def Spelling.ofChars (cs : List Char) : Spelling :=
  let (negative, unsigned) := splitSign cs
  let whole := unsigned.takeWhile isDigit
  let (fraction, tail) :=
    match unsigned.dropWhile isDigit with
    | '.' :: more => (some (more.takeWhile isDigit), more.dropWhile isDigit)
    | rest => (none, rest)
  let exponent :=
    match tail with
    | _ :: more => some (splitSign more)
    | [] => none
  ⟨negative, whole, fraction, exponent⟩

/-! ## 2. Whole numbers -/

/-- The greatest significand that is kept exactly. -/
def significandLimit : Nat := twoTo 64 - 1

/-- A whole number without point and exponent. Negative zero, numbers above 64 bits and numbers
    below `-2 ^ 63` are not read as whole. -/
def Spelling.integer? (s : Spelling) : Option Int :=
  match s.fraction, s.exponent with
  | none, none =>
    let n := digitsValue s.whole
    if s.negative then if 0 < n ∧ n ≤ twoTo 63 then some (-(n : Int)) else none
    else if n ≤ significandLimit then some n else none
  | _, _ => none

/-! ## 3. Binary numbers -/

/-- The digits of the integer part: while the significand fits it grows, afterwards every further
    digit raises the exponent. -/
def gatherWhole : List Char → Nat → Nat × Int
  | [], n => (n, 0)
  | c :: cs, n =>
    let next := 10 * n + digitValue c
    if next ≤ significandLimit then gatherWhole cs next else (n, 1 + cs.length)

/-- The digits after the point: while the significand fits each lowers the exponent, afterwards all
    are dropped. -/
def gatherFraction : List Char → Nat → Int → Nat × Int
  | [], n, e => (n, e)
  | c :: cs, n, e =>
    let next := 10 * n + digitValue c
    if next ≤ significandLimit then gatherFraction cs next (e - 1) else (n, e)

/-- The greatest exponent that is counted; sums beyond it stay there. -/
def exponentLimit : Int := twoTo 31 - 1

def clampExponent (e : Int) : Int := max (-exponentLimit - 1) (min exponentLimit e)

/-- The number `x * 10 ^ exponent` by products and quotients with powers up to `10 ^ 308`. Too
    large a result is none; `steps` bounds the quotients, of which three leave zero. -/
def scaleByTen : Nat → Binary64 → Int → Option Binary64
  | 0, x, _ => some x
  | steps + 1, x, exponent =>
    if exponent.natAbs ≤ 308 then
      let power : Binary64 := .ofInt (tenTo exponent.natAbs)
      if 0 ≤ exponent then
        let y := x.mul power
        if y.isInfinite then none else some y
      else some (x.div power)
    else if x.isZero then some x
    else if 0 ≤ exponent then none
    else scaleByTen steps (x.div (.ofInt (tenTo 308))) (exponent + 308)

/-- The number of a significand and an exponent of ten. -/
def ofParts (negative : Bool) (significand : Nat) (exponent : Int) : Option Binary64 :=
  (scaleByTen 8 (.ofInt significand) exponent).map fun x => if negative then x.negate else x

/-- **The 64-bit number of a spelling**; none when it is too large. -/
def Spelling.double? (s : Spelling) : Option Binary64 :=
  match s.fraction, s.exponent, s.integer? with
  | none, none, some i => some (.ofInt i)
  | _, _, _ =>
    let (n, e) := gatherWhole s.whole 0
    let (n, e) :=
      match s.fraction with
      | some digits => gatherFraction digits n e
      | none => (n, e)
    match s.exponent with
    | none => ofParts s.negative n e
    | some (negative, digits) =>
      let value : Int := digitsValue digits
      if exponentLimit < value then
        if n ≠ 0 ∧ !negative then none else some (.ofRank s.negative 0)
      else ofParts s.negative n (clampExponent (if negative then e - value else e + value))

/-- The 32-bit number of a spelling: whole numbers are rounded once, all others by way of 64 bits,
    and too large a number becomes infinite. -/
def Spelling.single? (s : Spelling) : Option Binary32 :=
  match s.integer? with
  | some i => some (.ofInt i)
  | none => s.double?.map (·.convert .single)

/-! ## 4. Writing -/

/-- 64-bit numbers are written plainly from `1e-5` up to below `1e16`. -/
def doubleLayout : Layout := ⟨.toEven, some (-4, 16), true, "null", "null"⟩

/-- 32-bit numbers are written plainly from `1e-6` up to below `1e13`. -/
def singleLayout : Layout := ⟨.toEven, some (-5, 13), true, "null", "null"⟩

/-- A number, or null where there is no finite one. -/
def ofBinary (l : Layout) {f : Format} (x : Binary f) : Json :=
  if x.isFinite then number (l.text x).toList else null

def ofInt (i : Int) : Json :=
  number ((if i < 0 then ['-'] else []) ++ Nat.toDigits 10 i.natAbs)

def ofNat (n : Nat) : Json := ofInt n

end InstrumentFlow.Json
