/-!
# JSON trees

* `Json` -- a JSON text without its layout. Numbers keep their spelling; a string is `none` when it
  names half of a surrogate pair, which is correct JSON but no text;
* `Json.render` -- the text with one member or element per line and two blanks per level;
* `escapeChar`, `stringText` -- how characters are written inside strings.
-/

namespace InstrumentFlow

inductive Json where
  | null
  | boolean (b : Bool)
  | number (spelling : List Char)
  | string (s : Option String)
  | array (items : List Json)
  | object (members : List (Option String × Json))

namespace Json

/-- The string with a text. -/
def text (s : String) : Json := string (some s)

/-- The object with these members. -/
def ofMembers (members : List (String × Json)) : Json :=
  object (members.map fun m => (some m.1, m.2))

/-! ## 1. Strings -/

/-- A hexadecimal digit in lower case. -/
def hexDigit (n : Nat) : Char := "0123456789abcdef".toList.getD n '0'

/-- A character inside a string: the quotation mark, the backslash and the controls below the blank
    are escaped, five controls by a letter. -/
def escapeChar (c : Char) : List Char :=
  if c = '"' then ['\\', '"']
  else if c = '\\' then ['\\', '\\']
  else if c = '\x08' then ['\\', 'b']
  else if c = '\x0c' then ['\\', 'f']
  else if c = '\n' then ['\\', 'n']
  else if c = '\r' then ['\\', 'r']
  else if c = '\t' then ['\\', 't']
  else if c.toNat < 0x20 then
    ['\\', 'u', '0', '0', hexDigit (c.toNat / 16), hexDigit (c.toNat % 16)]
  else [c]

def stringText (s : String) : List Char := '"' :: (s.toList.flatMap escapeChar ++ ['"'])

/-! ## 2. Layout -/

/-- A new line at a level. -/
def newLine (level : Nat) : List Char := '\n' :: List.replicate (2 * level) ' '

/-- Parts with a comma between any two of them. -/
def commaSeparated : List (List Char) → List Char
  | [] => []
  | [p] => p
  | p :: ps => p ++ ',' :: commaSeparated ps

/-- An opening and a closing bracket around parts, each on a line of its own. -/
def bracketed (opening closing : Char) (level : Nat) (parts : List (List Char)) : List Char :=
  if parts.isEmpty then [opening, closing]
  else
    opening :: (commaSeparated (parts.map (newLine (level + 1) ++ ·))
      ++ newLine level ++ [closing])

mutual

/-- The text of a tree whose first line starts at a level. -/
def renderAt (level : Nat) : Json → List Char
  | null => "null".toList
  | boolean b => if b then "true".toList else "false".toList
  | number spelling => spelling
  | string s => stringText (s.getD "")
  | array items => bracketed '[' ']' level (renderItems (level + 1) items)
  | object members => bracketed (Char.ofNat 0x7B) (Char.ofNat 0x7D) level
      (renderMembers (level + 1) members)

def renderItems (level : Nat) : List Json → List (List Char)
  | [] => []
  | j :: js => renderAt level j :: renderItems level js

def renderMembers (level : Nat) : List (Option String × Json) → List (List Char)
  | [] => []
  | (key, j) :: rest =>
    (stringText (key.getD "") ++ [':', ' '] ++ renderAt level j) :: renderMembers level rest

end

def render (j : Json) : String := String.ofList (renderAt 0 j)

end Json

end InstrumentFlow
