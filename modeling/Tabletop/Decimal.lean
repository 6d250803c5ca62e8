/-!
# Decimal digits

Numbers are written in ASCII digits without leading zeros and read with any number of them, so every number reads back
from its own text.
-/

namespace Tabletop.Decimal

set_option autoImplicit false

def digits (n : Nat) : List Char := Nat.toDigits 10 n

/-- The number that a run of digits denotes; the empty run denotes 0. -/
def value (ds : List Char) : Nat := Nat.ofDigitChars 10 ds 0

theorem value_digits (n : Nat) : value (digits n) = n :=
  Nat.ofDigitChars_toDigits (by decide) (by decide)

theorem digits_ne_nil (n : Nat) : digits n ≠ [] := Nat.toDigits_ne_nil

theorem isDigit_of_mem_digits {n : Nat} {c : Char} (member : c ∈ digits n) : c.isDigit :=
  Nat.isDigit_of_mem_toDigits (by decide) (by decide) member

end Tabletop.Decimal
