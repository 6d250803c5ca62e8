import Tabletop.Whole

/-!
# Dice and faces

A standard die shows 1 up to its number of sides, as far as whole numbers go; a Fate die shows -1, 0 or 1 and has a
glyph for each. Whatever sample a source of faces answers with, the die brings it into its own range first.
-/

namespace Tabletop

set_option autoImplicit false

/-- A positive number of sides that 32 unsigned bits hold. -/
structure Sides where
  count : Nat
  pos : 0 < count
  small : count < 4294967296
deriving DecidableEq

inductive Die where
  | standard (sides : Sides)
  | fate
deriving DecidableEq

structure Face where
  value : Whole
  symbol : String
deriving DecidableEq

namespace Glyph

def minus : String := "⊟"

def blank : String := "☐"

def plus : String := "⊞"

end Glyph

namespace Sides

def ofNat? (n : Nat) : Option Sides :=
  if fits : 0 < n ∧ n < 4294967296 then some ⟨n, fits.1, fits.2⟩ else none

end Sides

namespace Die

def ofSides? (n : Nat) : Option Die :=
  if n ≤ 2147483647 then (Sides.ofNat? n).map standard else none

def name : Die → List Char
  | standard sides =>
    'd' :: Decimal.digits sides.count
  | fate =>
    ['d', 'F']

/-- The number of sides that the die asks a source of faces for: a Fate die is thrown as a die of three. -/
def asks : Die → Sides
  | standard sides =>
    sides
  | fate =>
    ⟨3, by decide, by decide⟩

def bounded (die : Die) (sample : Nat) : Nat := min (max sample 1) die.asks.count

def shown (die : Die) (number : Nat) : Whole :=
  match die with
  | standard _ =>
    Whole.capped number
  | fate =>
    if number ≤ 1 then .minusOne
    else if number = 2 then .zero
    else .one

def symbol (die : Die) (value : Whole) : String :=
  match die with
  | standard _ =>
    String.ofList value.text
  | fate =>
    if value = .minusOne then Glyph.minus
    else if value = .zero then Glyph.blank
    else if value = .one then Glyph.plus
    else String.ofList value.text

def face (die : Die) (value : Whole) : Face := ⟨value, die.symbol value⟩

end Die

namespace Face

/-- A face that no die showed, such as a compounded sum or the total of a group's member. -/
def synthetic (value : Whole) : Face := ⟨value, String.ofList value.text⟩

/-- The face counted against its group. Glyphs stay glyphs, any other symbol is written anew. -/
def negated? (face : Face) : Option Face :=
  face.value.neg?.map fun value =>
    ⟨value,
      if face.symbol = Glyph.minus then Glyph.plus
      else if face.symbol = Glyph.plus then Glyph.minus
      else if face.symbol = Glyph.blank then face.symbol
      else String.ofList value.text⟩

end Face

end Tabletop
