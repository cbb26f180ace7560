import InstrumentFlow.Numeric.Arithmetic

/-!
# Literals

The values that a definition can write down: constants, and the first values of variables.

* `Literal` -- a tree; arrays nest to any depth;
* `Literal.same` -- equality of what two literals say: numbers compare as numbers, so that the two
  zeros agree and a pattern without a number differs even from itself.
-/

namespace InstrumentFlow

open Numeric

inductive Literal where
  | undefined
  | null
  | int (i : Int32)
  | float (x : Binary32)
  | double (x : Binary64)
  | boolean (b : Bool)
  | string (s : String)
  | array (items : List Literal)

namespace Literal

mutual

def same : Literal → Literal → Bool
  | undefined, undefined => true
  | null, null => true
  | int i, int j => i == j
  | float x, float y => x.equals y
  | double x, double y => x.equals y
  | boolean a, boolean b => a == b
  | string s, string t => s == t
  | array xs, array ys => sameList xs ys
  | _, _ => false

/-- Literals pairwise the same, and equally many. -/
def sameList : List Literal → List Literal → Bool
  | [], [] => true
  | x :: xs, y :: ys => same x y && sameList xs ys
  | _, _ => false

end

def isUndefined : Literal → Bool
  | undefined => true
  | _ => false

def isNull : Literal → Bool
  | null => true
  | _ => false

end Literal

end InstrumentFlow
