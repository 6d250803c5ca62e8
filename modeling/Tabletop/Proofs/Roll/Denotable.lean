import Tabletop.Proofs.Notation.Grammar
import Tabletop.Proofs.Roll.Nodes

/-!
# Rolls that a notation can denote

A roll is more than a notation can say: a die may have too many sides, a threshold may be negative, and a first member
has no sign before it. Here is what a notation can say, node by node.
-/

namespace Tabletop

set_option autoImplicit false

def Tail.tests (tail : Tail) : List Test := tail.success.toList ++ tail.failure.toList

def Unsigned (tests : List Test) : Prop := ∀ test ∈ tests, 0 ≤ test.threshold.val

def Die.Nameable : Die → Prop
  | standard sides => sides.count ≤ 2147483647
  | fate => True

namespace Single

def tests (single : Single) : List Test :=
  single.rerolls.map (·.test) ++ (single.exploding.map (·.test)).toList ++ single.tail.tests

structure Regular (single : Single) : Prop where
  die : single.die.Nameable
  multiplier : single.multiplier.val ≠ -2147483648
  tests : Unsigned single.tests

end Single

namespace Roll

/-- A multiplier that is written as a number is read as a modifier of the member before it, and has to fit there. -/
def FitsBehind (previous : Roll) : Roll → Prop
  | single roll =>
    roll.multiplier ≠ .one → roll.multiplier ≠ .minusOne →
      Whole.InRange (previous.tail.modifier.val + roll.multiplier.val)
  | group .. => True

def Chained : Roll → List Roll → Prop
  | _, [] => True
  | previous, member :: members => previous.FitsBehind member ∧ Chained member members

/-- Only a member behind a sign is negative, and a group of one member is combined. -/
def Joinable (first : Roll) (others : List Roll) (combined : Bool) : Prop :=
  first.isNegative = false ∧
    match combined with
    | true => first.Chained others
    | false => others ≠ [] ∧ ∀ member ∈ others, member.isNegative = false

def Regular : Roll → Prop
  | single roll => roll.Regular
  | group first others tail combined _ => first.Joinable others combined ∧ Unsigned tail.tests

def AllRegular (roll : Roll) : Prop := ∀ node ∈ roll.nodes, node.Regular

/-- What a roll has to be for a notation to denote it. -/
structure Denotable (roll : Roll) : Prop where
  nonnegative : roll.isNegative = false
  regular : roll.AllRegular

end Roll

end Tabletop
