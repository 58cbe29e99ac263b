/-!
# A place in a YAML text

Indentation, line ends and the distance between two places all have a meaning in YAML, so a reader
of YAML moves a `Cursor` that keeps count of them.  `Scan α` reads a value from the cursor on, or
fails; a failure is final, because no part of YAML is read by trying.

A line can end in five ways.  Line feeds, carriage returns, both together and the next-line
character all count as a line feed; the two separator characters stand for themselves.
-/

set_option autoImplicit false

namespace GrantCompiler
namespace Yaml

/-! ## Characters -/

/-- A character that may occur in a YAML text. -/
def isAllowed (c : Char) : Bool :=
  c == '\t' || c == '\n' || c == '\r' || (' ' ≤ c && c ≤ '~') || c == '\u0085' ||
    ('\u00a0' ≤ c && c != '\ufffe' && c != '\uffff')

/-- A space or a tab. -/
def isBlank (c : Char) : Bool := c == ' ' || c == '\t'

/-- A character that ends a line. -/
def isBreak (c : Char) : Bool :=
  c == '\n' || c == '\r' || c == '\u0085' || c == '\u2028' || c == '\u2029'

/-- A character of the names of anchors, directives and tag handles. -/
def isWordChar (c : Char) : Bool := c.isAlphanum || c == '-' || c == '_'

/-! ## The cursor -/

/-- A place in a text, with what follows it. -/
structure Cursor where
  /-- The length of the whole text, which bounds every repetition. -/
  size : Nat
  rest : List Char
  /-- Bytes before this place. -/
  index : Nat
  line : Nat
  column : Nat

/-- The place before the first character. -/
def Cursor.start (text : List Char) : Cursor := ⟨text.length, text, 0, 0, 0⟩

/-- The place after a character that does not end a line. -/
def Cursor.next (c : Cursor) : Cursor :=
  match c.rest with
  | [] => c
  | d :: rest => { c with rest, index := c.index + d.utf8Size, column := c.column + 1 }

/-- Reads a value from the cursor on, or fails. -/
abbrev Scan (α : Type) := StateT Cursor Option α

namespace Scan

variable {α : Type}

/-- The character at a distance from the cursor. -/
def look (distance : Nat) : Scan (Option Char) := do return (← get).rest[distance]?

/-- Whether the character at a distance is of a class; past the end none is. -/
def looksAt (distance : Nat) (accepted : Char → Bool) : Scan Bool := do
  return (← look distance).any accepted

/-- Whether a distance from here is a blank, a line end or the end of the text. -/
def blankAt (distance : Nat) : Scan Bool := do
  return (← look distance).all fun c => isBlank c || isBreak c

/-- Passes a character that does not end a line. -/
def skip : Scan Unit := modify Cursor.next

/-- Passes a number of characters that do not end a line. -/
def skips : Nat → Scan Unit
  | 0 => return ()
  | n + 1 => do skip; skips n

/-- Passes the longest run of characters of a class, none of which ends a line. -/
def run (accepted : Char → Bool) : Scan (List Char) := do
  let c ← get
  let taken := c.rest.takeWhile accepted
  set { c with
    rest := c.rest.drop taken.length
    index := taken.foldl (fun n (d : Char) => n + d.utf8Size) c.index
    column := c.column + taken.length }
  return taken

/-- Passes the longest run of characters of a class, none of which ends a line. -/
def dropRun (accepted : Char → Bool) : Scan Unit := do let _ ← run accepted

/-- Passes the end of a line, if there is one here, and answers with what it stands for. -/
def lineBreak : Scan (List Char) := do
  let c ← get
  let past (width : Nat) (rest : List Char) : Cursor :=
    ⟨c.size, rest, c.index + width, c.line + 1, 0⟩
  match c.rest with
  | '\r' :: '\n' :: rest => set (past 2 rest); return ['\n']
  | b :: rest =>
    if isBreak b then
      set (past b.utf8Size rest)
      return if b == '\u2028' || b == '\u2029' then [b] else ['\n']
    else return []
  | [] => return []

/-- Whether a line begins here with a mark that starts or ends a document. -/
def atDocumentMark : Scan Bool := do
  let c ← get
  let mark := c.rest.take 3
  return c.column == 0 && (mark == ['-', '-', '-'] || mark == ['.', '.', '.']) && (← blankAt 3)

/-- Repeats a step that passes at least one character, until it answers nothing. -/
def repeated (step : Scan (Option α)) : Scan (List α) := do go (← get).size
where
  go : Nat → Scan (List α)
    | 0 => return []
    | n + 1 => do
      match ← step with
      | none => return []
      | some a => return a :: (← go n)

/-- Blanks and a comment up to the end of the line, which has to follow, and the line end. -/
def restOfLine : Scan Unit := do
  dropRun isBlank
  if ← looksAt 0 (· == '#') then dropRun fun c => !isBreak c
  if ← looksAt 0 fun c => !isBreak c then failure
  let _ ← lineBreak

end Scan

end Yaml
end GrantCompiler
