import GrantCompiler.Digit
import GrantCompiler.Yaml.Cursor

/-!
# Scalars

A scalar is written plain, between single or double quotes, or as a block of lines.  Outside
blocks, a stretch of blanks and line ends within a scalar is a `Gap`: without a line end it stands
for itself, with one line end for a space, with more for all of them but the first.
-/

set_option autoImplicit false

namespace GrantCompiler
namespace Yaml

open Scan

/-! ## Gaps -/

/-- Blanks, and then line ends with the blanks after each left out. -/
structure Gap where
  blanks : List Char
  breaks : List (List Char)

namespace Gap

/-- Nothing between two characters. -/
def none : Gap := ⟨[], []⟩

/-- What a gap stands for. -/
def folded (g : Gap) : List Char :=
  match g.breaks with
  | [] => g.blanks
  | [first] => if first = ['\n'] then [' '] else first
  | first :: more => if first = ['\n'] then more.flatten else first ++ more.flatten

/-- What a gap stands for after a line end that has been escaped. -/
def joined (g : Gap) : List Char := g.breaks.flatten

end Gap

/-- Reads a gap.  In its lines, a tab left of the given column is refused. -/
def gap (indent : Nat) : Scan Gap := do
  let blanks ← run isBlank
  let breaks ← repeated do
    if ← looksAt 0 isBreak then
      let b ← lineBreak
      let c ← get
      let margin := c.rest.takeWhile isBlank
      if (margin.take (indent - c.column)).contains '\t' then failure
      dropRun isBlank
      return some b
    else return none
  return ⟨blanks, breaks⟩

/-- Whether a blank or a line end is next. -/
def atGap : Scan Bool := looksAt 0 fun c => isBlank c || isBreak c

/-! ## Plain scalars -/

/-- A mark that ends a plain scalar inside brackets. -/
def isFlowMark (c : Char) : Bool := c == ',' || c == '[' || c == ']' || c == '\x7b' || c == '\x7d'

/-- One character of a plain scalar, unless a mark ends it here.  Inside brackets a colon right
before a mark is refused. -/
def plainChar (flow : Bool) : Scan (Option Char) := do
  match ← look 0 with
  | .none => return none
  | some c =>
    if isBlank c || isBreak c then return none
    if flow && c == ':' && (← looksAt 1 fun d => isFlowMark d || d == '?') then failure
    if c == ':' && (← blankAt 1) then return none
    if flow && isFlowMark c then return none
    skip
    return some c

/-- The rest of a plain scalar after a gap, and whether the gap it ends in has a line end. -/
def plainTail (flow : Bool) (indent : Nat) : Nat → Gap → Scan (List Char × Bool)
  | 0, _ => failure
  | n + 1, pending => do
    let ended := (([] : List Char), !pending.breaks.isEmpty)
    if ← atDocumentMark then return ended
    if ← looksAt 0 (· == '#') then return ended
    let chunk ← repeated (plainChar flow)
    let (text, pending) :=
      if chunk.isEmpty then ([], pending) else (pending.folded ++ chunk, Gap.none)
    if ← atGap then
      let next ← gap indent
      if !flow && (← get).column < indent then return (text, !next.breaks.isEmpty)
      let (more, broken) ← plainTail flow indent n next
      return (text ++ more, broken)
    else return (text, !pending.breaks.isEmpty)

/-- A plain scalar whose further lines are indented to a column, and whether a line end follows. -/
def plainScalar (flow : Bool) (indent : Nat) : Scan (List Char × Bool) := do
  plainTail flow indent ((← get).size + 1) Gap.none

/-! ## Quoted scalars -/

/-- The character with a given number of hexadecimal digits for its code point. -/
def codePoint (width : Nat) : Scan Char := do
  let ds := (← get).rest.take width
  let code := Digit.number 16 ds
  if ds.length = width ∧ ds.all Digit.isHex ∧ code.isValidChar then
    skips width
    return Char.ofNat code
  else failure

/-- An escape sequence, from its backslash on. -/
def escape : Scan Char := do
  let mark ← look 1
  skips 2
  match mark with
  | some '0' => return '\x00'
  | some 'a' => return '\x07'
  | some 'b' => return '\x08'
  | some 't' | some '\t' => return '\t'
  | some 'n' => return '\n'
  | some 'v' => return '\x0b'
  | some 'f' => return '\x0c'
  | some 'r' => return '\r'
  | some 'e' => return '\x1b'
  | some ' ' => return ' '
  | some '"' => return '"'
  | some '/' => return '/'
  | some '\\' => return '\\'
  | some 'N' => return '\u0085'
  | some '_' => return '\u00a0'
  | some 'L' => return '\u2028'
  | some 'P' => return '\u2029'
  | some 'x' => codePoint 2
  | some 'u' => codePoint 4
  | some 'U' => codePoint 8
  | _ => failure

/-- One character between quotes, unless a gap, the closing quote or an escaped line end is next. -/
def quotedChar (double : Bool) : Scan (Option Char) := do
  match ← look 0 with
  | .none => return none
  | some c =>
    if isBlank c || isBreak c then return none
    else if double then
      if c == '"' then return none
      else if c == '\\' then
        if ← looksAt 1 isBreak then return none else return some (← escape)
      else skip; return some c
    else if c == '\'' then
      if ← looksAt 1 (· == '\'') then skips 2; return some '\'' else return none
    else skip; return some c

/-- What stands between here and the closing quote, which is passed. -/
def quotedTail (double : Bool) : Nat → Scan (List Char)
  | 0 => failure
  | n + 1 => do
    if ← atDocumentMark then failure
    if (← look 0).isNone then failure
    let chunk ← repeated (quotedChar double)
    let escaped ← looksAt 0 (· == '\\')
    if double && escaped then
      skip
      let _ ← lineBreak
    if ← looksAt 0 (· == if double then '"' else '\'') then
      skip
      return chunk
    let g ← gap 0
    return chunk ++ (if double && escaped then g.joined else g.folded) ++ (← quotedTail double n)

/-- A quoted scalar, from its opening quote on. -/
def quotedScalar (double : Bool) : Scan (List Char) := do
  skip
  quotedTail double ((← get).size + 1)

/-! ## Blocks -/

/-- What becomes of the line ends after the last line of a block. -/
inductive Chomping
  | strip
  | clip
  | keep
deriving DecidableEq

/-- The mark that says how a block is to end, if there is one. -/
def chomping : Scan (Option Chomping) := do
  match ← look 0 with
  | some '+' => skip; return some .keep
  | some '-' => skip; return some .strip
  | _ => return none

/-- A digit that gives the indentation of a block. -/
def indentDigit : Scan (Option Nat) := do
  match ← look 0 with
  | some c =>
    if c == '0' then failure
    else if c.isDigit then skip; return some (c.toNat - '0'.toNat)
    else return none
  | none => return none

/-- Passes the spaces that indent a line, up to a column if one is given, and the column reached. -/
def indentation (limit : Option Nat) : Scan Nat := do
  let c ← get
  let spaces := (c.rest.takeWhile (· == ' ')).length
  skips (match limit with | some l => min spaces (l - c.column) | none => spaces)
  let reached := (← get).column
  if (limit.all fun l => decide (reached < l)) && (← looksAt 0 (· == '\t')) then failure
  return reached

/-- The empty lines before a line of a block, and the greatest indentation among all these lines. -/
def emptyLines (limit : Option Nat) : Nat → Scan (Nat × List (List Char))
  | 0 => failure
  | n + 1 => do
    let reached ← indentation limit
    if ← looksAt 0 isBreak then
      let b ← lineBreak
      let (greatest, breaks) ← emptyLines limit n
      return (max reached greatest, b :: breaks)
    else return (reached, [])

/-- The lines of a block that are indented to a column, each after the line end and the empty lines
before it; then what follows the last of them. -/
def blockLines (literal : Bool) (indent : Nat) :
    Nat → (lineEnd : List Char) → (empty : List (List Char)) → (afterBlank : Bool) →
      Scan (List Char × List Char × List (List Char))
  | 0, _, _, _ => failure
  | n + 1, lineEnd, empty, afterBlank => do
    if (← get).column == indent && (← look 0).isSome then
      let blank ← looksAt 0 isBlank
      let fold := !literal && lineEnd == ['\n'] && !afterBlank && !blank
      let joint := if !fold then lineEnd else if empty.isEmpty then [' '] else []
      let content ← run fun c => !isBreak c
      let next ← lineBreak
      let (_, after) ← emptyLines (some indent) ((← get).size + 1)
      let (more, tail) ← blockLines literal indent n next after blank
      return (joint ++ empty.flatten ++ content ++ more, tail)
    else return ([], lineEnd, empty)

/-- A block scalar, from its mark on, inside a collection at the given indentation. -/
def blockScalar (literal : Bool) (outer : Int) : Scan (List Char) := do
  skip
  let before ← chomping
  let digit ← indentDigit
  let after ← if before.isNone && digit.isSome then chomping else pure none
  restOfLine
  let size := (← get).size + 1
  let given := digit.map fun d => outer.toNat + d
  let (greatest, empty) ← emptyLines given size
  let indent := given.getD (max (max greatest (outer + 1).toNat) 1)
  let (content, lineEnd, trailing) ← blockLines literal indent size [] empty false
  let chomp := (before <|> after).getD .clip
  return content ++
    (if chomp = .strip then [] else lineEnd) ++ (if chomp = .keep then trailing.flatten else [])

end Yaml
end GrantCompiler
