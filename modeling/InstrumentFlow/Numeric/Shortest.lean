import InstrumentFlow.Numeric.Binary

/-!
# The shortest decimal text of a binary number

A finite number is written with the fewest digits that read back as the same number; among those
the nearest to the number is taken.

* `Interval` -- the decimals that read back as a given number, in quarters of its last place;
* `Interval.pick?` -- the better of the two neighbours of the number on one decimal grid, if one of
  them lies in the interval;
* `shortestDigits` -- the first hit from the coarsest grid downward;
* `Layout` -- how digits become text: ties, where plain notation ends, the names of the special
  patterns; `Layout.text` writes a number.
-/

namespace InstrumentFlow.Numeric

/-! ## 1. Decimals that read back -/

/-- Which of two equally near neighbours is taken. -/
inductive Tie where
  | up
  | toEven
  deriving DecidableEq, Repr

/-- The decimals that round to one number: all between `low` and `high` around `middle`, in units
    of `2 ^ unit`; the ends belong to it when `closed`. -/
structure Interval where
  low : Nat
  middle : Nat
  high : Nat
  unit : Int
  closed : Bool
  deriving Repr

/-- The interval of a finite rank other than zero. Below the least significand of an exponent the
    gap to the next smaller number is half as wide. -/
def Interval.ofRank (f : Format) (rank : Nat) : Interval :=
  let m := f.significandOfRank rank
  let narrow := m = twoTo (f.precision - 1) ∧ twoTo (f.precision - 1) < rank
  { low := if narrow then 4 * m - 1 else 4 * m - 2
    middle := 4 * m
    high := 4 * m + 2
    unit := f.exponentOfRank rank - 2
    closed := m % 2 == 0 }

namespace Interval

/-- The factor of a decimal `c * 10 ^ k` when both sides of a comparison are whole. -/
def decimalFactor (i : Interval) (k : Int) : Nat := tenTo k.toNat * twoTo (-i.unit).toNat

/-- The factor of a bound when both sides of a comparison are whole. -/
def boundFactor (i : Interval) (k : Int) : Nat := tenTo (-k).toNat * twoTo i.unit.toNat

/-- Whether `c * 10 ^ k` reads back as the number. -/
def contains (i : Interval) (c : Nat) (k : Int) : Bool :=
  let point := c * i.decimalFactor k
  let low := i.low * i.boundFactor k
  let high := i.high * i.boundFactor k
  if i.closed then low ≤ point && point ≤ high else low < point && point < high

/-- The better of the two neighbours of the number on the grid of the multiples of `10 ^ k`. -/
def pick? (i : Interval) (tie : Tie) (k : Int) : Option Nat :=
  let target := i.middle * i.boundFactor k
  let step := i.decimalFactor k
  let below := target / step
  let above := below + 1
  match i.contains below k, i.contains above k with
  | true, false => some below
  | false, true => some above
  | false, false => none
  | true, true =>
    let toBelow := target - below * step
    let toAbove := above * step - target
    if toBelow < toAbove then some below
    else if toAbove < toBelow then some above
    else
      match tie with
      | .up => some above
      | .toEven => some (if below % 2 = 0 then below else above)

/-- The first hit on the grids `10 ^ k`, `10 ^ (k - 1)`, … -/
def search (i : Interval) (tie : Tie) : Nat → Int → Nat × Int
  | 0, k => (i.middle * i.boundFactor k / i.decimalFactor k, k)
  | more + 1, k =>
    match i.pick? tie k with
    | some c => (c, k)
    | none => search i tie more (k - 1)

end Interval

/-- An exponent of ten that is greater than every number of `bits` binary places before the
    point: three decimal places suffice for ten binary ones, less for negative counts. -/
def decimalPlacesOfBits (bits : Int) : Int := bits * 30103 / 100000 + 1

/-- The digits of a number without the zeros at its end, and their count. -/
def stripZeros : List Char → List Char × Nat
  | ds =>
    let kept := (ds.reverse.dropWhile (· == '0')).reverse
    (kept, ds.length - kept.length)

/-- **The shortest digits of a finite rank other than zero**, as digits `d₁d₂…` and the place of the
    point: the number is `0.d₁d₂… * 10 ^ point`. Seventeen digits always suffice in the formats in
    use; the first grids tried are coarser than the number itself. -/
def shortestDigits (f : Format) (tie : Tie) (rank : Nat) : List Char × Int :=
  let i := Interval.ofRank f rank
  let start := decimalPlacesOfBits (i.middle.log2 + 1 + i.unit)
  let (c, k) := i.search tie 24 start
  let digits := Nat.toDigits 10 c
  ((stripZeros digits).1, digits.length + k)

/-! ## 2. Layouts -/

/-- How the digits of a number become text. -/
structure Layout where
  tie : Tie
  /-- The places of the point that are written without an exponent; `none` for all. -/
  plain : Option (Int × Int)
  /-- A whole number in plain notation keeps one zero after the point. -/
  keepsFraction : Bool
  nan : String
  infinity : String

namespace Layout

def zeros (n : Int) : List Char := List.replicate n.toNat '0'

/-- Plain notation: zeros fill the places between the digits and the point. -/
def plainText (l : Layout) (digits : List Char) (point : Int) : List Char :=
  if point ≤ 0 then '0' :: '.' :: (zeros (-point) ++ digits)
  else if digits.length ≤ point then
    digits ++ zeros (point - digits.length) ++ if l.keepsFraction then ['.', '0'] else []
  else digits.take point.toNat ++ '.' :: digits.drop point.toNat

/-- Notation with an exponent: one digit before the point, no point after a lone digit, and the
    sign of the exponent always written. -/
def exponentText (digits : List Char) (point : Int) : List Char :=
  let exponent := point - 1
  let mantissa :=
    match digits with
    | [] => ['0']
    | [d] => [d]
    | d :: ds => d :: '.' :: ds
  mantissa ++ 'e' :: (if exponent < 0 then '-' else '+') :: Nat.toDigits 10 exponent.natAbs

def magnitudeText (l : Layout) (digits : List Char) (point : Int) : List Char :=
  match l.plain with
  | none => l.plainText digits point
  | some (least, greatest) =>
    if least ≤ point ∧ point ≤ greatest then l.plainText digits point
    else exponentText digits point

/-- The text of a number. The sign is written for negative zero too. -/
def text (l : Layout) {f : Format} (x : Binary f) : String :=
  if x.isNaN then l.nan
  else
    let sign := if x.negative then ['-'] else []
    if x.isInfinite then String.ofList (sign ++ l.infinity.toList)
    else if x.isZero then
      String.ofList (sign ++ '0' :: if l.keepsFraction then ['.', '0'] else [])
    else
      let (digits, point) := shortestDigits f l.tie x.rank
      String.ofList (sign ++ l.magnitudeText digits point)

end Layout

end InstrumentFlow.Numeric
