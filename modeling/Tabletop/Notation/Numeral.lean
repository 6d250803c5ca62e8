import Tabletop.Notation.Fault

/-!
# What the digits of a token say

A token fixes its letters; here its digits get a value, and a token whose digits denote nothing the roll can hold is at
fault itself.
-/

namespace Tabletop.Notation.Token

set_option autoImplicit false

def unexpected {α : Type} (token : Token) : Except Fault α := .error (.unexpectedToken token.text token.span)

def unknownDie {α : Type} (token : Token) : Except Fault α := .error (.unknownDie token.text token.span)

def orUnexpected {α : Type} (token : Token) : Option α → Except Fault α
  | some value => .ok value
  | none => token.unexpected

def number (token : Token) : Except Fault Whole :=
  token.orUnexpected (Whole.ofNat? (Decimal.value token.text))

def signedNumber (negative : Bool) (token : Token) : Except Fault Whole := do
  let value ← token.number
  if negative then token.orUnexpected value.neg? else .ok value

/-- The text after the `d`: a number of sides, or `f` in either case. Dice of no sides are unknown. -/
def die (token : Token) : Except Fault Die :=
  let code := token.text.drop 1
  if code ≠ [] ∧ code.all Char.isDigit then
    let sides := Decimal.value code
    if sides = 0 then token.unknownDie else token.orUnexpected (Die.ofSides? sides)
  else if code = ['f'] ∨ code = ['F'] then .ok .fate
  else token.unknownDie

/-- The digits after the two letters of a limit; without digits the amount is 1. -/
def limit (kind : Limit.Kind) (token : Token) : Except Fault Limit :=
  let code := token.text.drop 2
  token.orUnexpected (Limit.ofNat? kind (if code = [] then 1 else Decimal.value code))

end Tabletop.Notation.Token
