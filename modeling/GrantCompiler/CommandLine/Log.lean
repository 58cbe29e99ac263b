import GrantCompiler.Diagnostic
import GrantCompiler.Digit

/-!
# Log lines

A finding is logged as its message and its code.  Messages quote names as the documents spell them,
so the control characters that a terminal could act on are written as escapes.  Tabs and line ends
stay as they are, and with a line end in a name only the first line of the text is marked as a
warning: `logText` is all of it, `logLine` the line that is marked.
-/

set_option autoImplicit false

namespace GrantCompiler

namespace Log

/-- The control characters below U+0080 that are escaped. -/
def terminalControls : List Char := ['\x07', '\x08', '\x0c', '\x1b', '\x7f']

/-- How a character of a message is written. -/
def escape (c : Char) : List Char :=
  if c ∈ terminalControls then '\\' :: 'x' :: Digit.hexPair c.toNat
  else if 0x80 ≤ c.toNat ∧ c.toNat < 0xa0 then
    '\\' :: 'u' :: '\x7b' :: Digit.hexPair c.toNat ++ ['\x7d']
  else [c]

/-- The first of the lines of a text, without what ends it. -/
def firstLine (text : List Char) : List Char :=
  let line := text.takeWhile (· != '\n')
  if line.length < text.length ∧ line.getLast? = some '\r' then line.dropLast else line

end Log

namespace Diagnostic

/-- What is logged of a finding. -/
def logText (d : Diagnostic) : String :=
  String.ofList (d.message.toList.flatMap Log.escape) ++ " code=\"" ++ d.code ++ "\""

/-- The line of it that is marked as a warning. -/
def logLine (d : Diagnostic) : String := String.ofList (Log.firstLine d.logText.toList)

end Diagnostic

end GrantCompiler
