/-!
# Digits

Digits of bases up to sixteen, and the numbers they spell.  `Digit.value` reads capital and small
letters; `Digit.ofValue` writes small ones, and `value_ofValue` says that what it writes is read
back.
-/

set_option autoImplicit false

namespace GrantCompiler
namespace Digit

/-- A digit of base sixteen. -/
def isHex (c : Char) : Bool := c.isDigit || ('a' ≤ c && c ≤ 'f') || ('A' ≤ c && c ≤ 'F')

/-- What a digit counts. -/
def value (c : Char) : Nat :=
  if c.isDigit then c.toNat - '0'.toNat
  else if 'a' ≤ c then c.toNat - 'a'.toNat + 10
  else c.toNat - 'A'.toNat + 10

/-- The digit that counts a number below sixteen. -/
def ofValue (n : Nat) : Char :=
  if n < 10 then Char.ofNat ('0'.toNat + n) else Char.ofNat ('a'.toNat + (n - 10))

/-- Two digits of base sixteen, for a number below 256. -/
def hexPair (n : Nat) : List Char := [ofValue (n / 16), ofValue (n % 16)]

theorem value_ofValue : ∀ n < 16, value (ofValue n) = n := by decide

/-- The number that digits spell, the most significant first. -/
def number (base : Nat) (digits : List Char) : Nat :=
  digits.foldl (fun n d => base * n + value d) 0

end Digit
end GrantCompiler
