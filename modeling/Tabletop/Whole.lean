import Tabletop.Decimal

/-!
# Whole numbers of 32 signed bits

Multipliers, modifiers, thresholds, face values and totals are all of this kind. Arithmetic is exact: where the true
result leaves the range there is no result, so nothing wraps.
-/

namespace Tabletop

set_option autoImplicit false

@[ext]
structure Whole where
  val : Int
  low : -2147483648 ≤ val
  high : val ≤ 2147483647
deriving DecidableEq

namespace Whole

def ofInt? (n : Int) : Option Whole :=
  if range : -2147483648 ≤ n ∧ n ≤ 2147483647 then some ⟨n, range.1, range.2⟩ else none

def zero : Whole := ⟨0, by decide, by decide⟩

def one : Whole := ⟨1, by decide, by decide⟩

def minusOne : Whole := ⟨-1, by decide, by decide⟩

def largest : Whole := ⟨2147483647, by decide, by decide⟩

def ofNat? (n : Nat) : Option Whole := ofInt? n

/-- The nearest whole number: what is too large becomes the largest. -/
def capped (n : Nat) : Whole :=
  if fits : n ≤ 2147483647 then ⟨n, by omega, by omega⟩ else largest

def add? (a b : Whole) : Option Whole := ofInt? (a.val + b.val)

def sub? (a b : Whole) : Option Whole := ofInt? (a.val - b.val)

def neg? (a : Whole) : Option Whole := ofInt? (-a.val)

def isNegative (a : Whole) : Bool := decide (a.val < 0)

/-- Decimal text, with a minus sign where one is due. -/
def text (a : Whole) : List Char :=
  if a.val < 0 then '-' :: Decimal.digits a.val.natAbs else Decimal.digits a.val.natAbs

/-- Decimal text that always opens with a sign; zero takes the plus. -/
def signedText (a : Whole) : List Char :=
  (if a.val < 0 then '-' else '+') :: Decimal.digits a.val.natAbs

theorem ofInt?_eq_some {n : Int} {a : Whole} : ofInt? n = some a ↔ a.val = n := by
  unfold ofInt?
  constructor
  · intro found
    split at found
    · cases found; rfl
    · cases found
  · intro same
    subst same
    rw [dif_pos ⟨a.low, a.high⟩]

theorem ofInt?_eq_none {n : Int} : ofInt? n = none ↔ n < -2147483648 ∨ 2147483647 < n := by
  unfold ofInt?
  split <;> simp <;> omega

end Whole

end Tabletop
