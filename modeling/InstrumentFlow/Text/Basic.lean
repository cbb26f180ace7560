/-!
# Texts as lists of characters

* `isBlank` -- membership in the 25 characters with the Unicode property White_Space;
* `trimStart`, `trimEnd`, `trim` -- texts without the blanks at their ends;
* `find?` -- the least number of items after which one list continues with another.
-/

namespace InstrumentFlow.Text

/-! ## 1. Blanks -/

/-- White_Space of Unicode: tabulator to carriage return, the spaces, the line and paragraph
    separators and the next-line control. -/
def isBlank (c : Char) : Bool :=
  let n := c.toNat
  (0x09 ≤ n && n ≤ 0x0D) || n == 0x20 || n == 0x85 || n == 0xA0 || n == 0x1680
    || (0x2000 ≤ n && n ≤ 0x200A) || n == 0x2028 || n == 0x2029 || n == 0x202F
    || n == 0x205F || n == 0x3000

def trimStart (cs : List Char) : List Char := cs.dropWhile isBlank

def trimEnd (cs : List Char) : List Char := (cs.reverse.dropWhile isBlank).reverse

def trim (cs : List Char) : List Char := trimEnd (trimStart cs)

/-! ## 2. Lists in lists -/

/-- The index of the first place where `needle` starts in a list. -/
def find? [BEq α] (needle : List α) : List α → Option Nat
  | [] => if needle.isEmpty then some 0 else none
  | c :: cs =>
    if needle.isPrefixOf (c :: cs) then some 0
    else (find? needle cs).map (· + 1)

end InstrumentFlow.Text
