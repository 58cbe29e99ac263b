import GrantCompiler.Toml.Scalar
import GrantCompiler.Toml.Entries

/-!
# Locators files

A document is a sequence of lines: blank ones, comments, headers and keys with values.  `parse?`
reads it to the table at its top.  Lists and tables in braces nest to a limited depth, and so do
dotted keys.
-/

set_option autoImplicit false

namespace GrantCompiler
namespace Toml

open Reader

/-- Values nest less deep than this, and no key has as many parts. -/
def depthLimit : Nat := 80

/-! ## Keys -/

/-- One part of a key, quoted or bare. -/
def simpleKey : Reader String :=
  basicString <|> literalString <|> (do return String.ofList (← run1 isBareKeyChar))

/-- The parts of a key, with the blanks around each. -/
def key : Reader (List String) := do
  let parts ← separated (do blanks; let part ← simpleKey; blanks; return part) (char '.')
  if parts.length < depthLimit then return parts else failure

/-! ## Values -/

/-- A list in brackets; a comma may follow its last item. -/
def listOf (item : Reader Value) : Reader Value := do
  char '['
  let items ← optional (separated (do spacing; let v ← item; spacing; return v) (char ','))
  if items.isSome then let _ ← optional (char ',')
  spacing
  char ']'
  return .list (items.getD [])

/-- A table in braces, whose keys follow the rules of a section of their own. -/
def braced (item : Reader Value) : Reader Value := do
  char '\x7b'
  let pair := do
    let path ← key
    char '='
    blanks
    let v ← item
    blanks
    return (path, v)
  let pairs ← optional (separated pair (char ','))
  blanks
  char '\x7d'
  match (pairs.getD []).foldlM (fun s (p : List String × Value) => Entries.assign p.2 p.1 s) [] with
  | some s => return .table (valuesOf s)
  | none => failure

/-- A value with at most so many values around one another inside it. -/
def nested : Nat → Reader Value
  | 0 => scalar
  | depth + 1 => listOf (nested depth) <|> braced (nested depth) <|> scalar

/-! ## Lines -/

/-- What a line says. -/
inductive Line
  | header (path : List String)
  | listHeader (path : List String)
  | assignment (path : List String) (v : Value)
  | blank

/-- One line with the end of it. -/
def line : Reader Line := do
  blanks
  (do comment; lineEnd; return .blank) <|>
    (do
      chars ['[', '[']
      let path ← key
      chars [']', ']']
      restOfLine
      return .listHeader path) <|>
    (do
      char '['
      let path ← key
      char ']'
      restOfLine
      return .header path) <|>
    (do newline; return .blank) <|>
    (do
      let path ← key
      char '='
      blanks
      let v ← nested (depthLimit - 1)
      restOfLine
      return .assignment path v)

/-- Enters a line below the header that is open, and says which one is open after it. -/
def enter : List String × Entries → Line → Option (List String × Entries)
  | (_, s), .header path => do return (path, ← s.define path)
  | (_, s), .listHeader path => do return (path, ← s.grow path)
  | (header, s), .assignment path v => do return (header, ← s.assignUnder v path header)
  | state, .blank => some state

/-- The lines of a text, which may begin with a byte order mark. -/
def lines : Reader (List Line) := do
  let _ ← optional (char '\ufeff')
  let all ← many line
  blanks
  atEnd
  return all

/-- The top of a document, unless the text is none. -/
def parse? (text : String) : Option Table := do
  let (all, _) ← lines text.toList
  let (_, s) ← all.foldlM enter ([], [])
  let top := valuesOf s
  if Value.validEntries top then return .ofList top else none

end Toml
end GrantCompiler
