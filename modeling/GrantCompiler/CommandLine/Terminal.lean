/-!
# Text shown without a terminal

What a terminal would act on is left out of a message: control characters other than blanks, and
whole sequences that begin with an escape.  `Terminal.plain?` is the text that remains; a text that
ends inside a sequence has none, because the sequence takes in what is written after the text too.

A sequence of the kinds `escape`, `charset` and `control` may be interrupted by a line end or a tab.
These show, and so does what follows them, until a control character goes on with the sequence or a
character beyond U+007F gives it up.
-/

set_option autoImplicit false

namespace GrantCompiler
namespace Terminal

/-- Sequences, told apart by what ends them. -/
inductive Sequence
  /-- Just begun: the next character ends it or says what it is. -/
  | escape
  /-- Ends with the first character from `0` on. -/
  | charset
  /-- Ends with the first character from `@` on. -/
  | control
  /-- Ends with a bell. -/
  | command
  /-- Becomes a string with the first character from `@` on. -/
  | device
  /-- Ends with a character that has the byte 9C in it. -/
  | string
deriving DecidableEq

/-- Where a text has got to. -/
inductive State
  | text (interrupted : Option Sequence)
  | inside (s : Sequence)
deriving DecidableEq

/-- A control character that shows. -/
def isBlankControl (c : Char) : Bool := c == '\t' || c == '\n' || c == '\x0c' || c == '\r'

/-- A control character of ASCII. -/
def isControl (c : Char) : Bool := c.toNat < 0x20 || c == '\x7f'

namespace Sequence

/-- Goes on with a character that is no control character. -/
def next (s : Sequence) (c : Char) : State :=
  let within (least : Char) := least ≤ c && c.toNat < 0x80
  match s with
  | escape =>
    if c = '[' then .inside control
    else if c = ']' then .inside command
    else if c = 'P' then .inside device
    else if c = 'X' ∨ c = '^' ∨ c = '_' then .inside string
    else if within '0' then .text none
    else if within ' ' then .inside charset
    else .inside escape
  | charset => if within '0' then .text none else .inside charset
  | control => if within '@' then .text none else .inside control
  | command => .inside command
  | device => if within '@' then .inside string else .inside device
  | string => if 0x9c ∈ String.utf8EncodeChar c then .text none else .inside string

/-- Goes on with a control character. -/
def nextControl (s : Sequence) (c : Char) : State :=
  match s with
  | escape | charset | control => if isBlankControl c then .text (some s) else .inside s
  | command => if c = '\x07' then .text none else .inside command
  | device | string => .inside s

end Sequence

/-- Goes on with a character. -/
def State.next (state : State) (c : Char) : State :=
  if c = '\x1b' then .inside .escape
  else if c = '\x18' ∨ c = '\x1a' then .text none
  else
    match state with
    | .inside s => if isControl c then s.nextControl c else s.next c
    | .text none => .text none
    | .text (some s) =>
      if isControl c then s.nextControl c
      else if c.toNat < 0x80 then .text (some s)
      else .text none

/-- Whether a character shows that is met in one state and leads to another. -/
def shows (before after : State) (c : Char) : Bool :=
  match before, after with
  | .text _, .text _ => !isControl c || isBlankControl c
  | .inside _, .text _ => isBlankControl c
  | _, .inside _ => false

/-- The characters that show of those met from a state on. -/
def shown : State → List Char → Option (List Char)
  | .text _, [] => some []
  | .inside _, [] => none
  | state, c :: rest => do
    let after := state.next c
    let more ← shown after rest
    return if shows state after c then c :: more else more

/-- A text without what a terminal would act on, unless it ends inside a sequence. -/
def plain? (text : String) : Option String :=
  (shown (.text none) text.toList).map String.ofList

end Terminal
end GrantCompiler
