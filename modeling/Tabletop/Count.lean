/-!
# Counts given as text

A count of 64 bits in decimal, a plus in front allowed. Characters are looked at from left to right, and the first that
is no digit or makes the count too large decides.
-/

namespace Tabletop.Count

set_option autoImplicit false

inductive Fault where
  | empty
  | invalidDigit
  | tooLarge
deriving DecidableEq

namespace Fault

def message : Fault → List Char
  | empty => "cannot parse integer from empty string".toList
  | invalidDigit => "invalid digit found in string".toList
  | tooLarge => "number too large to fit in target type".toList

end Fault

/-- Reads on behind the digits that made up the count so far. -/
def readOn (count : Nat) : List Char → Except Fault Nat
  | [] =>
    .ok count
  | c :: rest =>
    if c.isDigit then
      let count := 10 * count + (c.toNat - '0'.toNat)
      if 18446744073709551615 < count then .error .tooLarge else readOn count rest
    else
      .error .invalidDigit

def read : List Char → Except Fault Nat
  | [] => .error .empty
  | ['+'] => .error .invalidDigit
  | '+' :: digits => readOn 0 digits
  | digits => readOn 0 digits

end Tabletop.Count
