/-! Hexadecimal numbers and the characters that they stand for. -/

namespace Datamodel.Text

def isHexDigit (c : Char) : Bool :=
  c.isDigit || ('a' ≤ c && c ≤ 'f') || ('A' ≤ c && c ≤ 'F')

/-- The value of a hexadecimal digit. -/
def hexDigit (c : Char) : Nat :=
  if c.isDigit then c.toNat - '0'.toNat
  else if 'a' ≤ c then c.toNat - 'a'.toNat + 10
  else c.toNat - 'A'.toNat + 10

/-- The number that hexadecimal digits stand for. -/
def hexNumber? (digits : List Char) : Option Nat :=
  if digits.all isHexDigit then some (digits.foldl (fun n c => 16 * n + hexDigit c) 0) else none

/-- The number that the first `count` characters of a text stand for, if they are hexadecimal
digits. -/
def hexPrefix? (count : Nat) (s : List Char) : Option Nat :=
  if (s.take count).length = count then hexNumber? (s.take count) else none

/-- The character whose code point is `n`; a surrogate is none. -/
def charOfCode? (n : Nat) : Option Char :=
  if n.isValidChar then some (Char.ofNat n) else none

end Datamodel.Text
