import GrantCompiler.Toml.Moment

/-!
# Scalars of a locators file

Strings in their four forms, numbers, moments and truth values.  A string is read to its
content.  Every other scalar is only recognised: its form and its range are checked, and its value
is dropped, because no locator may hold it.
-/

set_option autoImplicit false

namespace GrantCompiler
namespace Toml

open Reader

/-! ## Characters and lines -/

/-- A space or a tab. -/
def isBlank (c : Char) : Bool := c == ' ' || c == '\t'

/-- A character that may stand in a comment. -/
def isCommentChar (c : Char) : Bool := c == '\t' || (' ' ≤ c && c != '\x7f')

/-- A character of a key that is not quoted. -/
def isBareKeyChar (c : Char) : Bool := c.isAlphanum || c == '-' || c == '_'

/-- Spaces and tabs, if there are any. -/
def blanks : Reader Unit := do let _ ← run isBlank

/-- A line feed, alone or after a carriage return. -/
def newline : Reader Unit := char '\n' <|> chars ['\r', '\n']

/-- A comment, without the end of its line. -/
def comment : Reader Unit := do
  char '#'
  let _ ← run isCommentChar

/-- The end of a line, or of the text. -/
def lineEnd : Reader Unit := newline <|> atEnd

/-- What may follow on the line of a value or a header. -/
def restOfLine : Reader Unit := do
  blanks
  let _ ← optional comment
  lineEnd

/-- Blanks, line ends and comments, as they may stand between the items of a list. -/
def spacing : Reader Unit := do
  let _ ← many do
    (do let _ ← run1 isBlank) <|> newline <|> (do comment; newline)

/-! ## Strings -/

/-- A character of a quoted string that stands for itself. -/
def isBasicChar (c : Char) : Bool := isCommentChar c && c != '"' && c != '\\'

/-- A character of a literal string. -/
def isLiteralChar (c : Char) : Bool := isCommentChar c && c != '\''

/-- The character with a given number of hexadecimal digits for its code point. -/
def codePoint (digits : Nat) : Reader Char := do
  let ds ← upTo (one Digit.isHex) digits
  let code := Digit.number 16 ds
  if ds.length = digits ∧ code.isValidChar then return Char.ofNat code else failure

/-- An escape sequence. -/
def escaped : Reader Char := do
  char '\\'
  match ← one fun _ => true with
  | 'b' => return '\x08'
  | 'f' => return '\x0c'
  | 'n' => return '\n'
  | 'r' => return '\r'
  | 't' => return '\t'
  | '"' => return '"'
  | '\\' => return '\\'
  | 'u' => codePoint 4
  | 'U' => codePoint 8
  | _ => failure

/-- A string in double quotes, with escapes. -/
def basicString : Reader String := do
  char '"'
  let content ← many (one isBasicChar <|> escaped)
  char '"'
  return String.ofList content

/-- A string in single quotes, in which nothing is escaped. -/
def literalString : Reader String := do
  char '\''
  let content ← run isLiteralChar
  char '\''
  return String.ofList content

/-- A line end that is written after a backslash disappears with all blank space after it. -/
def joinedLines : Reader Unit := do
  char '\\'
  blanks
  newline
  let _ ← many ((do let _ ← one isBlank) <|> newline)

/-- One or two quotes with more content after them, for a string that three quotes close. -/
def innerQuotes (quote : Char) (content : Reader (List Char)) : Reader (List Char) := do
  let quotes ← upTo (char quote) 2
  if quotes.isEmpty then failure
  return List.replicate quotes.length quote ++ (← content)

/-- Three quotes, with up to two more before them that belong to the content. -/
def closingQuotes (quote : Char) : Reader (List Char) := do
  let closing := chars [quote, quote, quote]
  (do char quote; char quote; closing; return [quote, quote]) <|>
    (do char quote; closing; return [quote]) <|>
    (do closing; return [])

/-- A string over several lines; a line end right after the opening quotes is dropped. -/
def longString (quote : Char) (content : Reader (List Char)) : Reader String := do
  chars [quote, quote, quote]
  let _ ← optional newline
  let body ← many (content <|> innerQuotes quote content)
  let tail ← closingQuotes quote
  return String.ofList (body.flatten ++ tail)

/-- The end of a line inside a string. -/
def lineFeed : Reader (List Char) := do newline; return ['\n']

/-- A string in three double quotes, with escapes and joined lines. -/
def longBasicString : Reader String :=
  longString '"' <|
    run1 isBasicChar <|> (do joinedLines; return []) <|> (do return [← escaped]) <|> lineFeed

/-- A string in three single quotes. -/
def longLiteralString : Reader String :=
  longString '\'' (run1 isLiteralChar <|> lineFeed)

/-- A string in any of its forms; three quotes come before one. -/
def string : Reader String :=
  longBasicString <|> basicString <|> longLiteralString <|> literalString

/-! ## Numbers -/

/-- Digits, with single underscores allowed between them. -/
def digits (isDigit : Char → Bool) : Reader (List Char) := do
  let first ← one isDigit
  let rest ← many (one isDigit <|> (do char '_'; one isDigit))
  -- an underscore that no digit follows belongs to nothing
  match ← peek? with
  | some '_' => failure
  | _ => return first :: rest

/-- The greatest whole number of 64 bits with a sign. -/
def maxInteger : Nat := 0x7fffffffffffffff

/-- Passes a sign, if there is one, and says whether it is a minus. -/
def sign : Reader Bool := do
  match ← optional (one fun c => c == '+' || c == '-') with
  | some '-' => return true
  | _ => return false

/-- Decimal digits without a leading zero. -/
def wholePart : Reader (List Char) :=
  (do char '0'; return ['0']) <|> digits Char.isDigit

/-- A whole number after a mark for its base. -/
def based (mark : Char) (base : Nat) (isDigit : Char → Bool) : Reader Unit := do
  chars ['0', mark]
  let n := Digit.number base (← digits isDigit)
  if n > maxInteger then failure

/-- A whole number of base ten with a sign. -/
def decimal : Reader Unit := do
  let negative ← sign
  let n := Digit.number 10 (← wholePart)
  if n > (if negative then maxInteger + 1 else maxInteger) then failure

/-- A whole number in any base. -/
def integer : Reader Unit :=
  based 'x' 16 Digit.isHex <|> based 'o' 8 (fun c => '0' ≤ c && c ≤ '7') <|>
    based 'b' 2 (fun c => c == '0' || c == '1') <|> decimal

/-- Whether `n · 10 ^ e` is too large for a number of double precision, which it is from half a
unit in the last place above the largest one. -/
def tooLarge (n : Nat) (e : Int) : Bool :=
  let limit := Nat.pow 2 1024 - Nat.pow 2 970
  if n = 0 then false
  else if e ≥ 400 then true
  else if e ≥ 0 then n * Nat.pow 10 e.toNat ≥ limit
  else if e.natAbs ≥ n.log2 then false
  else n ≥ limit * Nat.pow 10 e.natAbs

/-- The power of ten of a number. -/
def exponent : Reader Int := do
  let _ ← one fun c => c == 'e' || c == 'E'
  let negative ← sign
  let n := Digit.number 10 (← digits Char.isDigit)
  return if negative then -n else n

/-- A number with a fraction, an exponent or both.  Only a positive one can be too large. -/
def float : Reader Unit := do
  let negative ← sign
  let whole ← wholePart
  let fraction ← optional (do char '.'; digits Char.isDigit)
  let power ← optional exponent
  if fraction.isNone && power.isNone then failure
  let decimals := fraction.getD []
  let n := Digit.number 10 (whole ++ decimals)
  if !negative && tooLarge n (power.getD 0 - decimals.length) then failure

/-- A number that is infinite, or none. -/
def specialFloat : Reader Unit := do
  let _ ← sign
  chars "inf".toList <|> chars "nan".toList

/-! ## All scalars -/

/-- A truth value. -/
def truth : Reader Unit := chars "true".toList <|> chars "false".toList

/-- Any value that holds no further values. -/
def scalar : Reader Value :=
  (do return .text (← string)) <|>
    (do moment <|> float <|> integer <|> specialFloat <|> truth; return .scalar)

end Toml
end GrantCompiler
