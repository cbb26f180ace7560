import InstrumentFlow.Numeric.Power

/-!
# Binary numbers of a fixed width

A binary number is a bit pattern: one sign bit, then its **rank**, the place of its magnitude in
the list of all magnitudes of the format. Every other notion is read off these two:

* `Format` -- precision and exponent width; `Format.single` and `Format.double` are the two in use;
* `Binary` -- a bit pattern of a format, with its sign and its rank;
* `Reading`, `Binary.read` -- what a pattern stands for: nothing, an infinity, or the exact number
  `significand * 2 ^ exponent`;
* `Format.rankOfRatio` -- the one rounding of the library: the rank of the number nearest to an
  exact ratio, ties to the even rank, everything too large to infinity;
* `Binary.ofRatio`, `Binary.ofInt`, `Binary.convert` -- numbers made through that rounding.
-/

namespace InstrumentFlow.Numeric

/-! ## 1. Formats -/

/-- A binary format: `precision` counts the significant bits with the leading one. -/
structure Format where
  precision : Nat
  exponentBits : Nat
  deriving DecidableEq, Repr

namespace Format

/-- The 32-bit format. -/
def single : Format := ⟨24, 8⟩

/-- The 64-bit format. -/
def double : Format := ⟨53, 11⟩

/-- The width of a pattern: sign, exponent field and the fraction without its leading one. -/
def width (f : Format) : Nat := f.precision + f.exponentBits

/-- The exponent of the last place of the smallest numbers. -/
def leastExponent (f : Format) : Int :=
  3 - twoTo (f.exponentBits - 1) - f.precision

/-- The rank of infinity. Smaller ranks are finite numbers, greater ones are no numbers. -/
def infinityRank (f : Format) : Nat :=
  (twoTo f.exponentBits - 1) * twoTo (f.precision - 1)

end Format

/-- A number of the format `f`, as its bit pattern. Two patterns are equal as data when all their
    bits agree; the equality of numbers is `Binary.equals`. -/
structure Binary (f : Format) where
  bits : BitVec f.width
  deriving DecidableEq

abbrev Binary32 := Binary Format.single

abbrev Binary64 := Binary Format.double

namespace Binary

variable {f : Format}

/-- The sign bit. -/
def negative (x : Binary f) : Bool := x.bits.msb

/-- The pattern without its sign bit. -/
def rank (x : Binary f) : Nat := x.bits.toNat % twoTo (f.width - 1)

/-- The pattern with the given sign bit and rank. -/
def ofRank (negative : Bool) (rank : Nat) : Binary f :=
  ⟨BitVec.ofNat f.width (rank + if negative then twoTo (f.width - 1) else 0)⟩

def zero : Binary f := ofRank false 0

def infinity (negative : Bool) : Binary f := ofRank negative f.infinityRank

/-- The quiet pattern that stands for no number. -/
def nan : Binary f := ofRank false (f.infinityRank + twoTo (f.precision - 2))

def isNaN (x : Binary f) : Bool := f.infinityRank < x.rank

def isInfinite (x : Binary f) : Bool := x.rank == f.infinityRank

def isFinite (x : Binary f) : Bool := x.rank < f.infinityRank

def isZero (x : Binary f) : Bool := x.rank == 0

/-- The same magnitude with the other sign. -/
def negate (x : Binary f) : Binary f := ofRank (!x.negative) x.rank

end Binary

/-! ## 2. What a pattern stands for -/

/-- **The meaning of a pattern**: no number, an infinity, or `± significand * 2 ^ exponent`. -/
inductive Reading where
  | nan
  | infinite (negative : Bool)
  | finite (negative : Bool) (significand : Nat) (exponent : Int)
  deriving DecidableEq, Repr

namespace Format

/-- The significand of a finite rank: the fraction field, with the leading one unless the
    exponent field is zero. -/
def significandOfRank (f : Format) (rank : Nat) : Nat :=
  if rank < twoTo (f.precision - 1) then rank
  else twoTo (f.precision - 1) + rank % twoTo (f.precision - 1)

/-- The exponent of the last place of a finite rank. -/
def exponentOfRank (f : Format) (rank : Nat) : Int :=
  f.leastExponent + (rank / twoTo (f.precision - 1) - 1 : Nat)

end Format

/-- Reads a pattern. -/
def Binary.read {f : Format} (x : Binary f) : Reading :=
  if x.rank < f.infinityRank then
    .finite x.negative (f.significandOfRank x.rank) (f.exponentOfRank x.rank)
  else if x.rank = f.infinityRank then .infinite x.negative
  else .nan

/-! ## 3. Rounding -/

/-- The whole number nearest to `num / den`; a half goes to the even neighbour. -/
def roundHalfEven (num den : Nat) : Nat :=
  let quotient := num / den
  let rest := num % den
  if 2 * rest < den then quotient
  else if den < 2 * rest then quotient + 1
  else quotient + quotient % 2

/-- The ratio `num / den` divided by `2 ^ exponent`, as numerator and denominator. -/
def scaleRatio (num den : Nat) (exponent : Int) : Nat × Nat :=
  (num * twoTo (-exponent).toNat, den * twoTo exponent.toNat)

namespace Format

/-- The exponent of the last place to which `num / den` is rounded: the one that leaves
    `precision` bits before the point, but never below the least one. -/
def placeOfRatio (f : Format) (num den : Nat) : Int :=
  let guess : Int := num.log2 - den.log2 - (f.precision - 1)
  let scaled := scaleRatio num den guess
  let exact := if scaled.1 < twoTo (f.precision - 1) * scaled.2 then guess - 1 else guess
  max exact f.leastExponent

/-- **The rank of the number nearest to `num / den`**, a tie to the even rank. Consecutive ranks
    are consecutive numbers, so a carry out of the significand needs no case of its own. -/
def rankOfRatio (f : Format) (num den : Nat) : Nat :=
  if num = 0 then 0
  else
    let place := f.placeOfRatio num den
    let scaled := scaleRatio num den place
    min ((place - f.leastExponent).toNat * twoTo (f.precision - 1)
      + roundHalfEven scaled.1 scaled.2) f.infinityRank

end Format

namespace Binary

variable {f : Format}

/-- The number nearest to `± num / den`. -/
def ofRatio (negative : Bool) (num den : Nat) : Binary f :=
  ofRank negative (f.rankOfRatio num den)

/-- The number nearest to `± significand * 2 ^ exponent`. -/
def ofDyadic (negative : Bool) (significand : Nat) (exponent : Int) : Binary f :=
  ofRatio negative (significand * twoTo exponent.toNat) (twoTo (-exponent).toNat)

/-- The number nearest to an integer. -/
def ofInt (i : Int) : Binary f := ofRatio (i < 0) i.natAbs 1

/-- The number of the format `g` nearest to `x`. -/
def convert {f : Format} (g : Format) (x : Binary f) : Binary g :=
  match x.read with
  | .nan => nan
  | .infinite negative => infinity negative
  | .finite negative significand exponent => ofDyadic negative significand exponent

end Binary

end InstrumentFlow.Numeric
