import InstrumentFlow.Numeric.Binary

/-!
# Arithmetic on binary numbers

Every operation forms its result exactly and rounds it once (`Binary.ofRatio`):

* `Binary.add`, `sub`, `mul`, `div` -- the four operations;
* `Binary.rem` -- the remainder of the quotient cut toward zero, with the sign of the dividend;
* `Binary.key`, `equals`, `less`, `lessOrEqual` -- the order of numbers: patterns that stand for
  no number have no key, and the two zeros have the same one;
* `Binary.truncate` -- the integer part, and `toInt32`, `toInt64` -- the same held within a range;
* `Binary.isWhole` -- no fraction part;
* `Binary.sin`, `cos`, `log` -- the platform's. All other numeric operations of the library are
  computed exactly and rounded once.
-/

namespace InstrumentFlow.Numeric

namespace Binary

variable {f : Format}

/-! ## 1. Sums -/

/-- The number `± significand * 2 ^ exponent` as an integer in units of `2 ^ unit`, for
    `unit ≤ exponent`. -/
def inUnits (negative : Bool) (significand : Nat) (exponent unit : Int) : Int :=
  let magnitude : Nat := significand * twoTo (exponent - unit).toNat
  if negative then -magnitude else magnitude

/-- The sum. An exact zero is positive unless both operands are negative. -/
def add (x y : Binary f) : Binary f :=
  match x.read, y.read with
  | .nan, _ | _, .nan => nan
  | .infinite s, .infinite t => if s = t then infinity s else nan
  | .infinite s, .finite _ _ _ => infinity s
  | .finite _ _ _, .infinite t => infinity t
  | .finite s m e, .finite t n k =>
    let unit := min e k
    let sum := inUnits s m e unit + inUnits t n k unit
    if sum = 0 then ofRank (s && t) 0
    else ofDyadic (sum < 0) sum.natAbs unit

def sub (x y : Binary f) : Binary f := add x y.negate

/-! ## 2. Products and quotients -/

def mul (x y : Binary f) : Binary f :=
  match x.read, y.read with
  | .nan, _ | _, .nan => nan
  | .infinite s, .infinite t => infinity (s != t)
  | .infinite s, .finite t n _ => if n = 0 then nan else infinity (s != t)
  | .finite s m _, .infinite t => if m = 0 then nan else infinity (s != t)
  | .finite s m e, .finite t n k => ofDyadic (s != t) (m * n) (e + k)

def div (x y : Binary f) : Binary f :=
  match x.read, y.read with
  | .nan, _ | _, .nan => nan
  | .infinite _, .infinite _ => nan
  | .infinite s, .finite t _ _ => infinity (s != t)
  | .finite s _ _, .infinite t => ofRank (s != t) 0
  | .finite s m e, .finite t n k =>
    if n = 0 then if m = 0 then nan else infinity (s != t)
    else ofRatio (s != t) (m * twoTo (e - k).toNat) (n * twoTo (k - e).toNat)

/-- The remainder of the quotient cut toward zero; it has the sign of the dividend. -/
def rem (x y : Binary f) : Binary f :=
  match x.read, y.read with
  | .nan, _ | _, .nan => nan
  | .infinite _, _ => nan
  | .finite _ _ _, .infinite _ => x
  | .finite s m e, .finite _ n k =>
    if n = 0 then nan
    else
      let unit := min e k
      ofDyadic s ((m * twoTo (e - unit).toNat) % (n * twoTo (k - unit).toNat)) unit

/-! ## 3. Order -/

/-- **The place of a number among all numbers**; `none` for a pattern that stands for none. -/
def key (x : Binary f) : Option Int :=
  if x.isNaN then none
  else some (if x.negative then -(x.rank : Int) else x.rank)

/-- Compares two keys; without both keys no comparison holds. -/
def compareKeys (holds : Int → Int → Bool) (x y : Binary f) : Bool :=
  match x.key, y.key with
  | some a, some b => holds a b
  | _, _ => false

def equals (x y : Binary f) : Bool := compareKeys (· == ·) x y

def less (x y : Binary f) : Bool := compareKeys (fun a b => a < b) x y

def lessOrEqual (x y : Binary f) : Bool := compareKeys (fun a b => a ≤ b) x y

/-! ## 4. Whole numbers -/

/-- The integer part of a finite number. -/
def truncateFinite (negative : Bool) (significand : Nat) (exponent : Int) : Int :=
  let magnitude : Nat := significand * twoTo exponent.toNat / twoTo (-exponent).toNat
  if negative then -magnitude else magnitude

/-- The integer part held within `low … high`; a pattern without a number gives 0. -/
def truncate (low high : Int) (x : Binary f) : Int :=
  match x.read with
  | .nan => 0
  | .infinite negative => if negative then low else high
  | .finite negative significand exponent =>
    max low (min high (truncateFinite negative significand exponent))

def toInt32 (x : Binary f) : Int32 := Int32.ofInt (x.truncate (-(twoTo 31 : Int)) (twoTo 31 - 1))

def toInt64 (x : Binary f) : Int := x.truncate (-(twoTo 63 : Int)) (twoTo 63 - 1)

/-- A finite number without a fraction part. -/
def isWhole (x : Binary f) : Bool :=
  match x.read with
  | .finite _ significand exponent => significand % twoTo (-exponent).toNat == 0
  | _ => false

/-! ## 5. Sine, cosine and logarithm -/

/-- The platform's number with the same bits. -/
def toPlatform (x : Binary64) : Float := Float.ofBits (UInt64.ofBitVec x.bits)

/-- The pattern of a platform number. -/
def ofPlatform (x : Float) : Binary64 := ⟨x.toBits.toBitVec⟩

def sin (x : Binary64) : Binary64 := ofPlatform x.toPlatform.sin

def cos (x : Binary64) : Binary64 := ofPlatform x.toPlatform.cos

/-- The natural logarithm. -/
def log (x : Binary64) : Binary64 := ofPlatform x.toPlatform.log

end Binary

end InstrumentFlow.Numeric
