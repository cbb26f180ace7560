/-!
# Built-in operations

* `Operation` -- the operations that an expression can apply;
* `Operation.all`, `index`, `ofIndex?` -- their numbering in instruction words;
* `Operation.arity` -- how many operands each takes from the stack;
* `Operation.name` -- the names used by listings and messages.
-/

namespace InstrumentFlow.Bytecode

inductive Operation where
  | add | sub | mul | div | mod
  | leftShift | rightShift | binaryAnd | binaryOr | binaryXor
  | equal | notEqual | less | greater | lessOrEqual | greaterOrEqual
  | logicalAnd | logicalOr
  | unaryPlus | unaryMinus | binaryOneComplement | not
  | conditional | flowIterator
  | mathSin | mathCos | mathLog
  | stringFind
  deriving DecidableEq, Repr

namespace Operation

/-- All operations in the order of their numbers. -/
def all : List Operation :=
  [add, sub, mul, div, mod, leftShift, rightShift, binaryAnd, binaryOr, binaryXor, equal, notEqual,
    less, greater, lessOrEqual, greaterOrEqual, logicalAnd, logicalOr, unaryPlus, unaryMinus,
    binaryOneComplement, not, conditional, flowIterator, mathSin, mathCos, mathLog, stringFind]

def ofIndex? (index : Nat) : Option Operation := all[index]?

def index (op : Operation) : Nat := all.idxOf op

/-- The count of operands. -/
def arity : Operation → Nat
  | unaryPlus | unaryMinus | binaryOneComplement | not | flowIterator
  | mathSin | mathCos | mathLog => 1
  | conditional => 3
  | _ => 2

def name : Operation → String
  | add => "add"
  | sub => "sub"
  | mul => "mul"
  | div => "div"
  | mod => "mod"
  | leftShift => "left_shift"
  | rightShift => "right_shift"
  | binaryAnd => "binary_and"
  | binaryOr => "binary_or"
  | binaryXor => "binary_xor"
  | equal => "equal"
  | notEqual => "not_equal"
  | less => "less"
  | greater => "greater"
  | lessOrEqual => "less_or_equal"
  | greaterOrEqual => "greater_or_equal"
  | logicalAnd => "logical_and"
  | logicalOr => "logical_or"
  | unaryPlus => "unary_plus"
  | unaryMinus => "unary_minus"
  | binaryOneComplement => "binary_one_complement"
  | not => "not"
  | conditional => "conditional"
  | flowIterator => "flow_iterator"
  | mathSin => "math_sin"
  | mathCos => "math_cos"
  | mathLog => "math_log"
  | stringFind => "string_find"

/-- The operation with a given name. -/
def ofName? (name : String) : Option Operation := all.find? (·.name == name)

end Operation

end InstrumentFlow.Bytecode
