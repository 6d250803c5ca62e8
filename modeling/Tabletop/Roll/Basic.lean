import Tabletop.Die
import Tabletop.Roll.Test

/-!
# Rolls

A single roll throws one kind of die a number of times and works on the faces; a group pools the faces of its members
(combined) or puts one face per member in their place. What follows both alike is their tail. A negative multiplier or
group counts against the group around it.
-/

namespace Tabletop

set_option autoImplicit false

structure Reroll where
  test : Test
  /-- Whether a face is redrawn at most once, whatever comes. -/
  once : Bool
deriving DecidableEq

inductive Explosion.Kind where
  | exploding
  | compounded
  | penetrating
deriving DecidableEq

structure Explosion where
  kind : Explosion.Kind
  test : Test
deriving DecidableEq

inductive Limit.Kind where
  | keepHighest
  | keepLowest
  | dropHighest
  | dropLowest
deriving DecidableEq

structure Limit where
  kind : Limit.Kind
  amount : Nat
  small : amount < 18446744073709551616
deriving DecidableEq

inductive Order where
  | unsorted
  | ascending
  | descending
deriving DecidableEq

structure Tail where
  modifier : Whole
  limit : Option Limit
  success : Option Test
  failure : Option Test
deriving DecidableEq

structure Single where
  multiplier : Whole
  die : Die
  rerolls : List Reroll
  exploding : Option Explosion
  order : Order
  tail : Tail
deriving DecidableEq

/-- A group has a first member, so it is never empty. -/
inductive Roll where
  | single (roll : Single)
  | group (first : Roll) (others : List Roll) (tail : Tail) (combined negative : Bool)

namespace Limit

def ofNat? (kind : Limit.Kind) (amount : Nat) : Option Limit :=
  if small : amount < 18446744073709551616 then some ⟨kind, amount, small⟩ else none

end Limit

namespace Tail

def plain : Tail := ⟨.zero, none, none, none⟩

/-- Whether faces are counted instead of summed. -/
def counts (tail : Tail) : Bool := tail.success.isSome || tail.failure.isSome

end Tail

namespace Single

def plain (multiplier : Whole) (die : Die) : Single := ⟨multiplier, die, [], none, .unsorted, .plain⟩

end Single

namespace Roll

def tail : Roll → Tail
  | single roll => roll.tail
  | group _ _ tail _ _ => tail

def withTail (tail : Tail) : Roll → Roll
  | single roll => single { roll with tail }
  | group first others _ combined negative => group first others tail combined negative

/-- Whether the roll counts against the others of a combined group. -/
def isNegative : Roll → Bool
  | single roll => roll.multiplier.isNegative
  | group _ _ _ _ negative => negative

end Roll

end Tabletop
