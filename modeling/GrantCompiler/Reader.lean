/-!
# Reading characters

A `Reader α` takes a value off the front of a list of characters, or refuses.  Trying another
reader after a refusal starts again at the same place.  Repetition stops at the first refusal and
is bounded by the characters that were there to begin with, so it needs no further argument to end.
-/

set_option autoImplicit false

namespace GrantCompiler

/-- Takes a value off the front of the text, or refuses. -/
abbrev Reader (α : Type) := StateT (List Char) Option α

namespace Reader

variable {α : Type}

/-- The next character, which is not taken. -/
def peek? : Reader (Option Char) := do return (← get).head?

/-- The next character, if it is of the class. -/
def one (accepted : Char → Bool) : Reader Char := do
  match ← get with
  | c :: rest => if accepted c then set rest; return c else failure
  | [] => failure

/-- Exactly this character. -/
def char (c : Char) : Reader Unit := do let _ ← one (· == c)

/-- Exactly these characters. -/
def chars : List Char → Reader Unit
  | [] => return ()
  | c :: rest => do char c; chars rest

/-- The longest run of characters of the class, possibly empty. -/
def run (accepted : Char → Bool) : Reader (List Char) := do
  let cs ← get
  set (cs.dropWhile accepted)
  return cs.takeWhile accepted

/-- As `run`, with at least one character. -/
def run1 (accepted : Char → Bool) : Reader (List Char) := do
  let first ← one accepted
  return first :: (← run accepted)

/-- Applies a reader at most `n` times, as long as it does not refuse. -/
def upTo (p : Reader α) : Nat → Reader (List α)
  | 0 => return []
  | n + 1 => do
    match ← optional p with
    | none => return []
    | some a => return a :: (← upTo p n)

/-- Applies a reader that takes at least one character as often as it does not refuse. -/
def many (p : Reader α) : Reader (List α) := do upTo p (← get).length

/-- One or more values with a separator between them. -/
def separated (p : Reader α) (separator : Reader Unit) : Reader (List α) := do
  let first ← p
  return first :: (← many do separator; p)

/-- Refuses unless nothing is left. -/
def atEnd : Reader Unit := do
  match ← get with
  | [] => return ()
  | _ => failure

end Reader

end GrantCompiler
