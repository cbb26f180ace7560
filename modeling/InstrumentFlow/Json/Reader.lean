import InstrumentFlow.Json.Basic

/-!
# Reading JSON

Strict JSON on lists of characters. Every reader takes what it reads from the front and gives the
rest; the first argument bounds the count of calls by the length of the text.

* `readNumber?`, `readString?` -- the two lexical forms;
* `readValue?` -- a value after blanks;
* `Json.parse?` -- a whole text: one value, blanks around it, nothing else.
-/

namespace InstrumentFlow.Json

/-! ## 1. Blanks and numbers -/

def isJsonBlank (c : Char) : Bool := c == ' ' || c == '\n' || c == '\t' || c == '\r'

def skipBlanks (cs : List Char) : List Char := cs.dropWhile isJsonBlank

def isJsonDigit (c : Char) : Bool := '0' ≤ c && c ≤ '9'

/-- At least one digit. -/
def readDigits? (cs : List Char) : Option (List Char × List Char) :=
  let digits := cs.takeWhile isJsonDigit
  if digits.isEmpty then none else some (digits, cs.dropWhile isJsonDigit)

/-- Digits without a zero in front of further digits. -/
def readWhole? (cs : List Char) : Option (List Char × List Char) :=
  match readDigits? cs with
  | some ('0' :: _ :: _, _) => none
  | other => other

/-- A point with digits, or nothing. -/
def readFraction? : List Char → Option (List Char × List Char)
  | '.' :: cs => (readDigits? cs).map fun (digits, rest) => ('.' :: digits, rest)
  | cs => some ([], cs)

/-- An exponent, or nothing. -/
def readExponent? : List Char → Option (List Char × List Char)
  | c :: cs =>
    if c = 'e' ∨ c = 'E' then
      match cs with
      | '+' :: more => (readDigits? more).map fun (digits, rest) => (c :: '+' :: digits, rest)
      | '-' :: more => (readDigits? more).map fun (digits, rest) => (c :: '-' :: digits, rest)
      | more => (readDigits? more).map fun (digits, rest) => (c :: digits, rest)
    else some ([], c :: cs)
  | [] => some ([], [])

/-- A number as it is spelled. -/
def readNumber? (cs : List Char) : Option (List Char × List Char) :=
  let (sign, unsigned) :=
    match cs with
    | '-' :: rest => (['-'], rest)
    | _ => ([], cs)
  (readWhole? unsigned).bind fun (whole, afterWhole) =>
  (readFraction? afterWhole).bind fun (fraction, afterFraction) =>
  (readExponent? afterFraction).map fun (exponent, rest) =>
  (sign ++ whole ++ fraction ++ exponent, rest)

/-! ## 2. Strings -/

def hexValue? (c : Char) : Option Nat :=
  if '0' ≤ c ∧ c ≤ '9' then some (c.toNat - '0'.toNat)
  else if 'a' ≤ c ∧ c ≤ 'f' then some (c.toNat - 'a'.toNat + 10)
  else if 'A' ≤ c ∧ c ≤ 'F' then some (c.toNat - 'A'.toNat + 10)
  else none

/-- Four hexadecimal digits. -/
def readUnit? : List Char → Option (Nat × List Char)
  | a :: b :: c :: d :: rest => do
    let w ← hexValue? a
    let x ← hexValue? b
    let y ← hexValue? c
    let z ← hexValue? d
    some (((w * 16 + x) * 16 + y) * 16 + z, rest)
  | _ => none

/-- The character of an escape letter. -/
def simpleEscape? : Char → Option Char
  | '"' => some '"'
  | '\\' => some '\\'
  | '/' => some '/'
  | 'b' => some '\x08'
  | 'f' => some '\x0c'
  | 'n' => some '\n'
  | 'r' => some '\r'
  | 't' => some '\t'
  | _ => none

/-- The second half of a surrogate pair whose first half is `high`, written as an escape. -/
def readSecondHalf? (high : Nat) : List Char → Option (Char × List Char)
  | '\\' :: 'u' :: rest =>
    match readUnit? rest with
    | some (low, more) =>
      if 0xDC00 ≤ low ∧ low ≤ 0xDFFF then
        some (Char.ofNat ((high - 0xD800) * 0x400 + (low - 0xDC00) + 0x10000), more)
      else none
    | none => none
  | _ => none

/-- The characters of a string after its opening quotation mark. `text` holds the characters so far
    in reverse; it is lost for good at half of a surrogate pair. -/
def readChars? : Nat → Option (List Char) → List Char → Option (Option String × List Char)
  | 0, _, _ => none
  | _, _, [] => none
  | more + 1, text, c :: cs =>
    if c = '"' then some (text.map fun t => String.ofList t.reverse, cs)
    else if c = '\\' then
      match cs with
      | 'u' :: digits =>
        match readUnit? digits with
        | none => none
        | some (unit, rest) =>
          if 0xD800 ≤ unit ∧ unit ≤ 0xDFFF then
            match if unit ≤ 0xDBFF then readSecondHalf? unit rest else none with
            | some (d, after) => readChars? more (text.map (d :: ·)) after
            | none => readChars? more none rest
          else readChars? more (text.map (Char.ofNat unit :: ·)) rest
      | e :: rest =>
        match simpleEscape? e with
        | some d => readChars? more (text.map (d :: ·)) rest
        | none => none
      | [] => none
    else if c.toNat < 0x20 then none
    else readChars? more (text.map (c :: ·)) cs

/-- A string after its opening quotation mark. -/
def readString? (cs : List Char) : Option (Option String × List Char) :=
  readChars? (cs.length + 1) (some []) cs

/-! ## 3. Values -/

/-- The rest after a word. -/
def afterWord? (word cs : List Char) : Option (List Char) :=
  if word.isPrefixOf cs then some (cs.drop word.length) else none

def openBrace : Char := Char.ofNat 0x7B

def closeBrace : Char := Char.ofNat 0x7D

mutual

/-- A value after blanks. -/
def readValue? : Nat → List Char → Option (Json × List Char)
  | 0, _ => none
  | more + 1, cs =>
    match skipBlanks cs with
    | [] => none
    | c :: rest =>
      if c = '[' then
        match skipBlanks rest with
        | ']' :: after => some (array [], after)
        | _ => (readItems? more rest).map fun (items, after) => (array items, after)
      else if c = openBrace then
        match skipBlanks rest with
        | [] => none
        | d :: after =>
          if d = closeBrace then some (object [], after)
          else (readMembers? more rest).map fun (members, after) => (object members, after)
      else if c = '"' then (readString? rest).map fun (s, after) => (string s, after)
      else if c = 'n' then (afterWord? "ull".toList rest).map fun after => (null, after)
      else if c = 't' then (afterWord? "rue".toList rest).map fun after => (boolean true, after)
      else if c = 'f' then (afterWord? "alse".toList rest).map fun after => (boolean false, after)
      else (readNumber? (c :: rest)).map fun (spelling, after) => (number spelling, after)

/-- Elements up to the closing bracket; there is at least one. -/
def readItems? : Nat → List Char → Option (List Json × List Char)
  | 0, _ => none
  | more + 1, cs =>
    match readValue? more cs with
    | none => none
    | some (j, rest) =>
      match skipBlanks rest with
      | ',' :: next => (readItems? more next).map fun (items, after) => (j :: items, after)
      | ']' :: after => some ([j], after)
      | _ => none

/-- Members up to the closing brace; there is at least one. -/
def readMembers? : Nat → List Char → Option (List (Option String × Json) × List Char)
  | 0, _ => none
  | more + 1, cs =>
    match skipBlanks cs with
    | '"' :: keyText =>
      match readString? keyText with
      | none => none
      | some (key, afterKey) =>
        match skipBlanks afterKey with
        | ':' :: valueText =>
          match readValue? more valueText with
          | none => none
          | some (j, rest) =>
            match skipBlanks rest with
            | [] => none
            | d :: after =>
              if d = ',' then
                (readMembers? more after).map fun (members, end_) => ((key, j) :: members, end_)
              else if d = closeBrace then some ([(key, j)], after)
              else none
        | _ => none
    | _ => none

end

/-- **The tree of a JSON text**; `none` for any other text. -/
def parse? (s : String) : Option Json :=
  let cs := s.toList
  match readValue? (cs.length + 1) cs with
  | some (j, rest) => if (skipBlanks rest).isEmpty then some j else none
  | none => none

end InstrumentFlow.Json
