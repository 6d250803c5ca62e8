import Mathlib
import Tabletop.Proofs.Roll.Nodes

/-!
# What stands around dice

Dice stand in a gap of the group around them, that group in a gap of the next one, and so on up to the whole roll. The
dice in front of them are those of the members in front of each gap.
-/

namespace Tabletop

set_option autoImplicit false

/-- A group without one of its members. -/
structure Gap where
  before : List Roll
  after : List Roll
  tail : Tail
  combined : Bool
  negative : Bool

namespace Gap

def fill (gap : Gap) (member : Roll) : Roll :=
  match gap.before with
  | [] => .group member gap.after gap.tail gap.combined gap.negative
  | first :: more => .group first (more ++ member :: gap.after) gap.tail gap.combined gap.negative

theorem tail_fill (gap : Gap) (member : Roll) : (gap.fill member).tail = gap.tail := by
  unfold fill
  cases gap.before <;> rfl

end Gap

namespace Roll

/-- The whole roll, with a node put into the gaps around it, innermost first. -/
def around (gaps : List Gap) (node : Roll) : Roll := gaps.foldl (fun node gap => gap.fill node) node

def isDice : Roll → Bool
  | single _ => true
  | group .. => false

/-- How many dice with a multiplier of their own the roll has. -/
def dice (roll : Roll) : Nat := roll.nodes.countP isDice

def diceAll (members : List Roll) : Nat := (members.map dice).sum

def diceBefore (gaps : List Gap) : Nat := (gaps.map fun gap => diceAll gap.before).sum

theorem dice_single (roll : Single) : (single roll).dice = 1 := rfl

theorem dice_all_nil : diceAll [] = 0 := rfl

theorem dice_all_one (member : Roll) : diceAll [member] = member.dice := rfl

theorem dice_all_append (members others : List Roll) :
    diceAll (members ++ others) = diceAll members + diceAll others := by
  rw [diceAll, List.map_append, List.sum_append]
  rfl

theorem dice_group (first : Roll) (others : List Roll) (tail : Tail) (combined negative : Bool) :
    (group first others tail combined negative).dice = diceAll (first :: others) := by
  have all (members : List Roll) : (nodesAll members).countP isDice = diceAll members := by
    rw [nodes_all_eq_flat_map, List.countP_flatMap]
    rfl
  rw [dice, nodes, List.countP_cons_of_neg Bool.false_ne_true, List.countP_append, all, diceAll, diceAll, List.map_cons,
    List.sum_cons]
  rfl

theorem dice_with_tail (tail : Tail) (roll : Roll) : (roll.withTail tail).dice = roll.dice := by
  cases roll with
  | single roll => rfl
  | group => rw [withTail, dice_group, dice_group]

end Roll

end Tabletop
