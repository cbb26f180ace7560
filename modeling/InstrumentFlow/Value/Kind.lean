/-!
# Kinds of values

* `ValueKind` -- what sort of thing a value is;
* `ValueKind.name` -- the word that messages use for it.
-/

namespace InstrumentFlow

inductive ValueKind where
  | undefined | null | integer | float | double | boolean | string | array
  | reference | flowOutput | nativeVariable | arrayElement
  deriving DecidableEq, Repr

namespace ValueKind

def name : ValueKind → String
  | undefined => "undefined"
  | null => "null"
  | integer => "integer"
  | float => "float"
  | double => "double"
  | boolean => "boolean"
  | string => "string"
  | array => "array"
  | reference => "reference"
  | flowOutput => "flow output"
  | nativeVariable => "native variable"
  | arrayElement => "array element"

end ValueKind

end InstrumentFlow
