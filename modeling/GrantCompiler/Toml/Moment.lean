import GrantCompiler.Digit
import GrantCompiler.Reader
import GrantCompiler.Toml.Value

/-!
# Moments

A moment is a date, a time of day, or both; with both there may be a distance from universal time.

A moment is written as a value of its own.  Besides, a table whose first key is `momentMark` stands
for the moment that the text under this key spells, whatever else the table holds; such a table is
refused unless the text does spell one.  `Value.valid` says that this holds throughout a value.
-/

set_option autoImplicit false

namespace GrantCompiler
namespace Toml

open Reader

/-! ## Reading -/

/-- A number of exactly so many digits, within bounds. -/
def field (width least greatest : Nat) : Reader Nat := do
  let ds ← upTo (one Char.isDigit) width
  let n := Digit.number 10 ds
  if ds.length = width ∧ least ≤ n ∧ n ≤ greatest then return n else failure

/-- The number of days of a month. -/
def daysIn (year month : Nat) : Nat :=
  if month = 2 then
    if year % 4 = 0 ∧ (year % 100 ≠ 0 ∨ year % 400 = 0) then 29 else 28
  else if month ∈ [4, 6, 9, 11] then 30
  else 31

/-- A year, a month and a day that this month has. -/
def date : Reader Unit := do
  let year ← field 4 0 9999
  char '-'
  let month ← field 2 1 12
  char '-'
  let _ ← field 2 1 (daysIn year month)

/-- A time of day, with seconds and any fraction of them. -/
def time : Reader Unit := do
  let _ ← field 2 0 23
  char ':'
  let _ ← field 2 0 59
  char ':'
  let _ ← field 2 0 60
  let _ ← optional (do char '.'; run1 Char.isDigit)

/-- A distance from universal time. -/
def zone : Reader Unit :=
  (do let _ ← one fun c => c == 'Z' || c == 'z') <|> do
    let _ ← one fun c => c == '+' || c == '-'
    let _ ← field 2 0 23
    char ':'
    let _ ← field 2 0 59

/-- A date, with a time and a distance or without, or a time alone. -/
def moment : Reader Unit :=
  (do
    date
    let _ ← optional do
      let _ ← one fun c => c == 'T' || c == 't' || c == ' '
      time
      optional zone) <|>
    time

/-! ## Tables that stand for moments -/

/-- The first key of a table that stands for a moment. -/
def momentMark : String := "$__toml_private_datetime"

namespace Value

/-- Whether a value is a text that spells a moment from its first to its last character. -/
def spellsMoment : Value → Bool
  | text content => ((do moment; atEnd : Reader Unit) content.toList).isSome
  | _ => false

mutual

/-- Whether every table in a value that is marked as a moment spells one. -/
def valid : Value → Bool
  | text _ => true
  | scalar => true
  | list items => validItems items
  | table [] => true
  | table ((key, v) :: rest) =>
    if key = momentMark then v.spellsMoment else v.valid && validEntries rest

/-- The same for all items of a list. -/
def validItems : List Value → Bool
  | [] => true
  | v :: rest => v.valid && validItems rest

/-- The same for all entries of a table, whether or not it is marked itself. -/
def validEntries : List (String × Value) → Bool
  | [] => true
  | (_, v) :: rest => v.valid && validEntries rest

end

end Value

end Toml
end GrantCompiler
