import InstrumentFlow.Value.Convert

/-!
# Equality of values

Two notions, and both compare arrays by their elements:

* `Heap.same?` -- the same kind and the same content, the test for a change of a slot;
* `Heap.equal?` -- equality as expressions see it: outside arrays, numbers compare by value across
  kinds.

Both are without an answer where the comparison of two arrays would come back to itself.
-/

namespace InstrumentFlow

open Numeric

/-- Same kind and content, for values that are no arrays and no elements. -/
def Value.samePlain : Value → Value → Bool
  | .undefined, .undefined | .null, .null => true
  | .int i, .int j => i == j
  | .float x, .float y => x.equals y
  | .double x, .double y => x.equals y
  | .boolean a, .boolean b => a == b
  | .string s, .string t => s == t
  | .slot i m, .slot j n => i == j && m == n
  | .global m, .global n => m == n
  | .output m, .output n => m == n
  | .native m, .native n => m == n
  | _, _ => false

/-- Compares two lists element by element and stops at the first difference. -/
def sameAll? (same? : Value → Value → Option Bool) : List Value → List Value → Option Bool
  | v :: vs, w :: ws =>
    match same? v w with
    | some true => sameAll? same? vs ws
    | other => other
  | _, _ => some true

/-- Compares two storages: first their sizes, then their elements. -/
def Heap.sameElements? (h : Heap) (same? : Value → Value → Option Bool) (a b : ArrayId) :
    Option Bool :=
  let xs := h.elements a
  let ys := h.elements b
  if xs.size = ys.size then sameAll? same? xs.toList ys.toList else some false

/-- Same kind and content, following at most `depth` pairs of arrays inside each other. -/
def Heap.sameWithin (h : Heap) : Nat → Value → Value → Option Bool
  | 0, .array _, .array _ | 0, .element _ _, .element _ _ => none
  | depth + 1, .array a, .array b => h.sameElements? (h.sameWithin depth) a b
  | depth + 1, .element a i, .element b j =>
    (h.sameElements? (h.sameWithin depth) a b).map (· && i == j)
  | _, v, w => some (v.samePlain w)

/-- A comparison deeper than this has met one pair of arrays twice. -/
def Heap.comparisonDepth (h : Heap) : Nat := h.cells.size * h.cells.size + 2

/-- **The same kind and the same content.** A pattern without a number differs from itself, the two
    zeros agree. -/
def Heap.same? (h : Heap) (v w : Value) : Option Bool := h.sameWithin h.comparisonDepth v w

/-- **Equality as expressions see it.** Numbers compare by value across their kinds; one array is
    equal to itself whatever it holds; write targets are equal to nothing. -/
def Heap.equal? (h : Heap) (v w : Value) : Option Bool :=
  match v, w with
  | .undefined, .undefined | .null, .null => some true
  | .string s, .string t => some (s == t)
  | .boolean a, .boolean b => some (a == b)
  | .array a, .array b => if a = b then some true else h.same? (.array a) (.array b)
  | v, w => some (v.isNumber && w.isNumber && v.toDouble.equals w.toDouble)

end InstrumentFlow
