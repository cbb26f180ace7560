/-!
# Powers of two and of ten

The two bases of the library: places of binary numbers and widths of words are counted by `twoTo`,
places of decimal numbers by `tenTo`.

* `twoTo`, `tenTo` -- the powers;
* `twoTo_succ`, `twoTo_pos`, `tenTo_pos` -- a recursion, and that none is zero.
-/

namespace InstrumentFlow.Numeric

def twoTo (n : Nat) : Nat := Nat.pow 2 n

def tenTo (n : Nat) : Nat := Nat.pow 10 n

@[simp] theorem twoTo_zero : twoTo 0 = 1 := rfl

theorem twoTo_succ (n : Nat) : twoTo (n + 1) = twoTo n * 2 := rfl

@[simp] theorem tenTo_zero : tenTo 0 = 1 := rfl

theorem twoTo_pos (n : Nat) : 0 < twoTo n := Nat.pow_pos (by decide)

theorem tenTo_pos (n : Nat) : 0 < tenTo n := Nat.pow_pos (by decide)

end InstrumentFlow.Numeric
