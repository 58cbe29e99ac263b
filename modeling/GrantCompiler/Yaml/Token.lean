import GrantCompiler.Yaml.Scalar

/-!
# The tokens of a YAML text

Tokens are the marks and scalars of a text, with brackets put in where indentation opens and closes
a block.  A key is only known to be one when the colon after it appears, so the place of everything
that could turn out to be a key is remembered as a `Candidate`, and the token that announces a key
is put in there afterwards.  A candidate lapses at the end of its line and after 1024 bytes;
in a block, something at the column of the block's keys has to be a key.
-/

set_option autoImplicit false

namespace GrantCompiler
namespace Yaml

/-- A mark or a scalar, or a bracket that indentation stands for. -/
inductive Token
  | version (major minor : Nat)
  /-- A directive that declares a tag handle. -/
  | handle (name : String)
  | documentStart
  | documentEnd
  | blockListStart
  | blockMapStart
  | blockEnd
  | flowListStart
  | flowListEnd
  | flowMapStart
  | flowMapEnd
  | item
  | separator
  | key
  | value
  | alias (name : String)
  | anchor (name : String)
  /-- A tag, by the handle it needs; none if it is given in full. -/
  | tag (handle : Option String)
  | scalar (content : String) (plain : Bool)
deriving DecidableEq

open Scan

/-! ## Directives, anchors and tags -/

/-- A number of a directive, of at most nine digits. -/
def number : Scan Nat := do
  let ds ← run Char.isDigit
  if ds.isEmpty || ds.length > 9 then failure
  return Digit.number 10 ds

/-- A tag handle; in a directive one of more than a single mark has to be closed by another. -/
def tagHandle (directive : Bool) : Scan (List Char) := do
  unless ← looksAt 0 (· == '!') do failure
  skip
  let word ← run isWordChar
  if ← looksAt 0 (· == '!') then
    skip
    return '!' :: word ++ ['!']
  else if directive && !word.isEmpty then failure
  else return '!' :: word

/-- The number of bytes of a character in UTF-8 by the first of them. -/
def utf8Width (byte : Nat) : Option Nat :=
  if byte < 0x80 then some 1
  else if 0xc0 ≤ byte && byte < 0xe0 then some 2
  else if 0xe0 ≤ byte && byte < 0xf0 then some 3
  else if 0xf0 ≤ byte && byte < 0xf8 then some 4
  else none

/-- A byte written as a percent sign and two digits. -/
def uriByte : Scan Nat := do
  if (← looksAt 0 (· == '%')) && (← looksAt 1 Digit.isHex) && (← looksAt 2 Digit.isHex) then
    let ds := (← get).rest.drop 1 |>.take 2
    skips 3
    return Digit.number 16 ds
  else failure

/-- The bytes of one escaped character. -/
def uriEscape : Scan Unit := do
  match utf8Width (← uriByte) with
  | none => failure
  | some width =>
    let rec followers : Nat → Scan Unit
      | 0 => return ()
      | n + 1 => do
        let byte ← uriByte
        if byte < 0x80 || 0xc0 ≤ byte then failure
        followers n
    followers (width - 1)

/-- A character of a tag's address that stands for itself. -/
def isUriChar (c : Char) : Bool := isWordChar c || ";/?:@&=+$.!~*'()".contains c

/-- The characters of a tag's address and their number; in full addresses some marks may occur. -/
def uri (full : Bool) : Scan Nat := do
  let pieces ← repeated do
    match ← look 0 with
    | some c =>
      if c == '%' then uriEscape; return some ()
      else if isUriChar c || (full && (c == ',' || c == '[' || c == ']')) then
        skip
        return some ()
      else return none
    | none => return none
  return pieces.length

/-- A directive line, from its percent sign on. -/
def directive : Scan Token := do
  skip
  let name ← run isWordChar
  if name.isEmpty || !(← blankAt 0) then failure
  dropRun isBlank
  let token ←
    if name = "YAML".toList then do
      let major ← number
      unless ← looksAt 0 (· == '.') do failure
      skip
      let minor ← number
      pure (Token.version major minor)
    else if name = "TAG".toList then do
      let handle ← tagHandle true
      unless ← looksAt 0 isBlank do failure
      dropRun isBlank
      if (← uri true) = 0 then failure
      unless ← blankAt 0 do failure
      pure (Token.handle (String.ofList handle))
    else failure
  restOfLine
  return token

/-- The name of an anchor or an alias, after its mark. -/
def anchorName : Scan String := do
  skip
  let name ← run isWordChar
  let ended ← looksAt 0 fun c => "?:,]%@".contains c || c == '\x7d' || c == '\x60'
  if name.isEmpty || !(ended || (← blankAt 0)) then failure
  return String.ofList name

/-- A tag, and the handle that it needs. -/
def tag (flow : Bool) : Scan Token := do
  let handle ←
    if ← looksAt 1 (· == '<') then do
      skips 2
      if (← uri true) = 0 then failure
      unless ← looksAt 0 (· == '>') do failure
      skip
      pure none
    else do
      let head ← tagHandle false
      if head.length > 1 && head.getLast? = some '!' then do
        if (← uri false) = 0 then failure
        pure (some (String.ofList head))
      else do
        let _ ← uri false
        pure (some "!")
  let ended ← looksAt 0 fun c => flow && c == ','
  unless ended || (← blankAt 0) do failure
  return .tag handle

/-! ## The state of the scan -/

/-- A place where the token that announces a key may have to be put in. -/
structure Candidate where
  /-- Whether it has to be a key. -/
  required : Bool
  /-- The number of tokens before it. -/
  position : Nat
  index : Nat
  line : Nat
  column : Nat

/-- How far a text has been scanned. -/
structure Scanner where
  cursor : Cursor
  tokens : Array Token
  /-- The columns of the open blocks, innermost first; below all of them lies −1. -/
  indents : List Int
  /-- The candidate outside and inside each open bracket, innermost first. -/
  candidate : Option Candidate
  outer : List (Option Candidate)
  /-- Whether a key could begin here. -/
  keyAllowed : Bool

/-- Goes on scanning, or fails for good. -/
abbrev Scanning := StateT Scanner Option

namespace Scanning

variable {α : Type}

/-- Reads at the cursor. -/
def read (p : Scan α) : Scanning α := do
  let s ← get
  match p s.cursor with
  | some (a, cursor) => set { s with cursor }; return a
  | none => failure

/-- Whether a bracket is open. -/
def inFlow : Scanning Bool := do return !(← get).outer.isEmpty

/-- The column of the cursor. -/
def column : Scanning Int := do return (← get).cursor.column

/-- The column of the innermost block. -/
def indent : Scanning Int := do return (← get).indents.headD (-1)

/-- Adds a token. -/
def emit (t : Token) : Scanning Unit := modify fun s => { s with tokens := s.tokens.push t }

/-- Says whether a key could begin next. -/
def allowKey (keyAllowed : Bool) : Scanning Unit := modify fun s => { s with keyAllowed }

/-! ### Blocks -/

/-- Opens a block at a column to the right of the innermost one, before the token at a position. -/
def openBlock (column : Int) (position : Nat) (t : Token) : Scanning Unit := do
  if !(← inFlow) && (← indent) < column then
    modify fun s => { s with
      indents := column :: s.indents
      tokens := s.tokens.insertIdxIfInBounds position t }

/-- Opens a block at the cursor. -/
def openBlockHere (t : Token) : Scanning Unit := do
  openBlock (← column) (← get).tokens.size t

/-- Closes the blocks to the right of a column. -/
def closeBlocks (column : Int) : Scanning Unit := do
  unless ← inFlow do
    let s ← get
    let closed := s.indents.takeWhile (column < ·)
    set { s with
      indents := s.indents.drop closed.length
      tokens := s.tokens ++ Array.replicate closed.length Token.blockEnd }

/-! ### Candidates -/

/-- Gives up a candidate; one that has to be a key is an error then. -/
def giveUp : Option Candidate → Scanning (Option Candidate)
  | some c => if c.required then failure else return none
  | none => return none

/-- Gives up the innermost candidate. -/
def dropCandidate : Scanning Unit := do
  let candidate ← giveUp (← get).candidate
  modify fun s => { s with candidate }

/-- Gives up a candidate that is on an earlier line or too far back. -/
def lapse (here : Cursor) : Option Candidate → Scanning (Option Candidate)
  | some c =>
    if c.line < here.line || c.index + 1024 < here.index then giveUp (some c) else return some c
  | none => return none

/-- Gives up the candidates that have lapsed, inside brackets and outside. -/
def lapseCandidates : Scanning Unit := do
  let s ← get
  let candidate ← lapse s.cursor s.candidate
  let outer ← s.outer.mapM (lapse s.cursor)
  set { s with candidate, outer }

/-- Remembers this place as a candidate, if a key could begin here. -/
def saveCandidate : Scanning Unit := do
  let s ← get
  if s.keyAllowed then
    let required := s.outer.isEmpty && decide (s.indents.headD (-1) = (s.cursor.column : Int))
    dropCandidate
    let c : Candidate :=
      ⟨required, s.tokens.size, s.cursor.index, s.cursor.line, s.cursor.column⟩
    modify fun s => { s with candidate := some c }

/-! ## One token after the other -/

/-- Passes blanks, comments and line ends, and a byte order mark where a line begins.  A tab may not
stand where a block's key could begin. -/
def toNextToken : Nat → Scanning Unit
  | 0 => return ()
  | n + 1 => do
    let s ← get
    if s.cursor.column = 0 then
      read do if ← looksAt 0 (· == '\ufeff') then skip
    let tabs := !s.outer.isEmpty || !s.keyAllowed
    read do
      dropRun fun c => c == ' ' || (tabs && c == '\t')
      if ← looksAt 0 (· == '#') then dropRun fun c => !isBreak c
    if ← read (looksAt 0 isBreak) then
      let _ ← read lineBreak
      unless ← inFlow do allowKey true
      toNextToken n

/-- A mark of one character. -/
def mark (t : Token) : Scanning Unit := do
  read skip
  emit t

/-- A mark that starts or ends a document, and with that ends all blocks. -/
def documentMark (t : Token) : Scanning Unit := do
  closeBlocks (-1)
  dropCandidate
  allowKey false
  read (skips 3)
  emit t

/-- An opening bracket, which may begin a key. -/
def openFlow (t : Token) : Scanning Unit := do
  saveCandidate
  modify fun s => { s with outer := s.candidate :: s.outer, candidate := none }
  allowKey true
  mark t

/-- A closing bracket. -/
def closeFlow (t : Token) : Scanning Unit := do
  dropCandidate
  modify fun s =>
    match s.outer with
    | candidate :: outer => { s with candidate, outer }
    | [] => { s with candidate := none }
  allowKey false
  mark t

/-- A dash or a question mark that opens an entry. -/
def entryMark (block t : Token) : Scanning Unit := do
  let flow ← inFlow
  unless flow do
    unless (← get).keyAllowed do failure
    openBlockHere block
  dropCandidate
  allowKey (t = .item || !flow)
  mark t

/-- A colon: what the candidate marks is a key after all, or an empty key precedes it. -/
def valueMark : Scanning Unit := do
  match (← get).candidate with
  | some c =>
    modify fun s => { s with tokens := s.tokens.insertIdxIfInBounds c.position Token.key }
    openBlock c.column c.position .blockMapStart
    modify fun s => { s with candidate := none }
    allowKey false
  | none =>
    let flow ← inFlow
    unless flow do
      unless (← get).keyAllowed do failure
      openBlockHere .blockMapStart
    allowKey (!flow)
  mark .value

/-- Something that may be, or belong to, a key. -/
def part (p : Scan Token) : Scanning Unit := do
  saveCandidate
  allowKey false
  emit (← read p)

/-- A plain scalar.  If a line end follows it, a key could begin next. -/
def plain : Scanning Unit := do
  saveCandidate
  allowKey false
  let flow ← inFlow
  let column := ((← indent) + 1).toNat
  let (content, broken) ← read (plainScalar flow column)
  if broken then allowKey true
  emit (.scalar (String.ofList content) true)

/-- A block scalar, which cannot be a key. -/
def block (literal : Bool) : Scanning Unit := do
  dropCandidate
  allowKey true
  let outer ← indent
  emit (.scalar (String.ofList (← read (blockScalar literal outer))) false)

/-- The marks that a plain scalar cannot begin with. -/
def isMark (c : Char) : Bool :=
  "-?:,[]#&*!|>'\"%@".contains c || c == '\x7b' || c == '\x7d' || c == '\x60'

/-- Whether a plain scalar begins with a character, given whether a blank and whether a blank or an
end follows. -/
def beginsPlain (flow : Bool) (c : Char) (blank blankOrEnd : Bool) : Bool :=
  !(isMark c || isBlank c || isBreak c) || (c == '-' && !blank) ||
    (!flow && (c == '?' || c == ':') && !blankOrEnd)

/-- Reads one token at a character. -/
def token (c : Char) : Scanning Unit := do
  let flow ← inFlow
  let first := (← column) = 0
  let blank ← read (looksAt 1 isBlank)
  let blankOrEnd ← read (blankAt 1)
  if first && c == '%' then
    closeBlocks (-1)
    dropCandidate
    allowKey false
    emit (← read directive)
  else if ← read atDocumentMark then
    documentMark (if c == '-' then .documentStart else .documentEnd)
  else if c == '[' then openFlow .flowListStart
  else if c == '\x7b' then openFlow .flowMapStart
  else if c == ']' then closeFlow .flowListEnd
  else if c == '\x7d' then closeFlow .flowMapEnd
  else if c == ',' then
    dropCandidate
    allowKey true
    mark .separator
  else if c == '-' && blankOrEnd then entryMark .blockListStart .item
  else if c == '?' && (flow || blankOrEnd) then entryMark .blockMapStart .key
  else if c == ':' && (flow || blankOrEnd) then valueMark
  else if c == '*' then part (do return .alias (← anchorName))
  else if c == '&' then part (do return .anchor (← anchorName))
  else if c == '!' then part (tag flow)
  else if c == '|' && !flow then block true
  else if c == '>' && !flow then block false
  else if c == '\'' then
    part (do return .scalar (String.ofList (← quotedScalar false)) false)
  else if c == '"' then
    part (do return .scalar (String.ofList (← quotedScalar true)) false)
  else if beginsPlain flow c blank blankOrEnd then plain
  else failure

/-- Reads tokens to the end of the text; each takes at least one character. -/
def toEnd : Nat → Scanning Unit
  | 0 => failure
  | n + 1 => do
    toNextToken ((← get).cursor.size + 1)
    lapseCandidates
    closeBlocks (← column)
    match ← read (look 0) with
    | some c => token c; toEnd n
    | none =>
      closeBlocks (-1)
      dropCandidate

end Scanning

/-- The tokens of a text, if it has any reading. -/
def Token.ofText? (text : String) : Option (List Token) := do
  let cs := text.toList
  if !cs.all isAllowed then failure
  let start : Scanner :=
    { cursor := .start cs, tokens := #[], indents := [], candidate := none, outer := [],
      keyAllowed := true }
  let ((), s) ← Scanning.toEnd (cs.length + 1) start
  return s.tokens.toList

end Yaml
end GrantCompiler
