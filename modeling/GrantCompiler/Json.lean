import GrantCompiler.Digit

/-!
# JSON text

The text of a JSON value, in one of two layouts: everything on one line, or one item to a line with
two spaces of indentation for each level.  A list without items is `[]` in both.

In a quoted text only what has to be escaped is: the quote, the backslash, and the characters below
the space.
-/

set_option autoImplicit false

namespace GrantCompiler

/-- The values that records are made of. -/
inductive Json
  | text (content : String)
  | list (items : List Json)
  | fields (entries : List (String × Json))

/-- How a value is laid out. -/
inductive Layout
  | compact
  | indented
deriving DecidableEq

namespace Json

/-! ## Quoted texts -/

/-- How a character is written between quotes. -/
def escape (c : Char) : List Char :=
  if c = '"' then ['\\', '"']
  else if c = '\\' then ['\\', '\\']
  else if c = '\x08' then ['\\', 'b']
  else if c = '\t' then ['\\', 't']
  else if c = '\n' then ['\\', 'n']
  else if c = '\x0c' then ['\\', 'f']
  else if c = '\r' then ['\\', 'r']
  else if c.toNat < 32 then '\\' :: 'u' :: '0' :: '0' :: Digit.hexPair c.toNat
  else [c]

/-- A text between quotes. -/
def quote (content : String) : List Char := '"' :: content.toList.flatMap escape ++ ['"']

/-! ## Layout -/

/-- What precedes an item, or a closing bracket, at a depth. -/
def lineBreak : Layout → Nat → List Char
  | .compact, _ => []
  | .indented, depth => '\n' :: List.replicate (2 * depth) ' '

/-- What stands between a key and its value. -/
def colon : Layout → List Char
  | .compact => [':']
  | .indented => [':', ' ']

mutual

/-- The characters of a value whose brackets stand at a depth. -/
def chars (layout : Layout) (depth : Nat) : Json → List Char
  | text content => quote content
  | list [] => ['[', ']']
  | list (item :: items) =>
    '[' :: lineBreak layout (depth + 1) ++ chars layout (depth + 1) item ++
      itemChars layout (depth + 1) items ++ lineBreak layout depth ++ [']']
  | fields [] => ['\x7b', '\x7d']
  | fields ((key, value) :: entries) =>
    '\x7b' :: lineBreak layout (depth + 1) ++ quote key ++ colon layout ++
      chars layout (depth + 1) value ++ fieldChars layout (depth + 1) entries ++
      lineBreak layout depth ++ ['\x7d']

/-- The further items of a list. -/
def itemChars (layout : Layout) (depth : Nat) : List Json → List Char
  | [] => []
  | item :: items =>
    ',' :: lineBreak layout depth ++ chars layout depth item ++ itemChars layout depth items

/-- The further fields of an object. -/
def fieldChars (layout : Layout) (depth : Nat) : List (String × Json) → List Char
  | [] => []
  | (key, value) :: entries =>
    ',' :: lineBreak layout depth ++ quote key ++ colon layout ++ chars layout depth value ++
      fieldChars layout depth entries

end

/-- The text of a value that stands by itself. -/
def render (layout : Layout) (value : Json) : String := String.ofList (chars layout 0 value)

end Json

end GrantCompiler
