import Tabletop.Roll.Scoring
import Tabletop.Throw.Redraw
import Tabletop.Throw.Explode

/-!
# Throwing a roll

A single roll throws all its dice at once and then redraws, explodes, limits and arranges them. A group throws its
members from left to right; it pools their faces, those of a negative member negated, or puts one face with the total
in the place of each member. Every completed roll is noted, but a roll of no dice has nothing to complete.
-/

namespace Tabletop

set_option autoImplicit false

namespace Tail

def score? (tail : Tail) (negative : Bool) (faces : List Face) : Option Result :=
  if tail.counts then (tail.tally? faces).map fun tally => ⟨faces, tally, tally⟩
  else (tail.total? negative faces).map fun total => ⟨faces, total, .zero⟩

end Tail

namespace Result

def empty : Result := ⟨[], .zero, .zero⟩

end Result

namespace Throw

/-- Notes a roll with its result, which overflows where there is none. -/
def complete (roll : Roll) : Option Result → Throw Result
  | some result => note roll result (done result)
  | none => overflow

end Throw

namespace Single

def count (roll : Single) : Nat := roll.multiplier.val.natAbs

def faces (patience : Nat) (roll : Single) : Throw (List Face) := do
  let thrown ← Throw.many roll.die roll.count .done
  let redrawn ← roll.rerolls.foldlM (Reroll.faces patience roll.die) (thrown.map roll.die.face)
  match roll.exploding with
  | some explosion => explosion.faces patience roll.die redrawn
  | none => .done redrawn

def throw (patience : Nat) (roll : Single) : Throw Result :=
  if roll.count = 0 then .done .empty
  else do
    let faces ← roll.faces patience
    -- A count comes out the same before the faces are put in order and behind that.
    .complete (.single roll)
      (roll.tail.score? roll.multiplier.isNegative (roll.order.apply (roll.tail.limited faces)))

end Single

namespace Roll

/-- What a member's result puts into its group. -/
def contribution? (combined : Bool) (member : Roll) (result : Result) : Option (List Face) :=
  if combined then
    if member.isNegative then result.faces.mapM Face.negated? else some result.faces
  else
    some [.synthetic result.total]

mutual

def throw (patience : Nat) : Roll → Throw Result
  | single roll =>
    roll.throw patience
  | group first others tail combined negative => do
    let result ← first.throw patience
    let pool ← .checked (first.contribution? combined result)
    let faces ← throwOthers patience combined others pool
    .complete (.group first others tail combined negative) (tail.score? negative (tail.limited faces))

def throwOthers (patience : Nat) (combined : Bool) : List Roll → List Face → Throw (List Face)
  | [], pool =>
    .done pool
  | member :: others, pool => do
    let result ← member.throw patience
    let faces ← .checked (member.contribution? combined result)
    throwOthers patience combined others (pool ++ faces)

end

/-- A group throws its first member as it throws the others, onto an empty pool. -/
theorem throw_group (patience : Nat) (first : Roll) (others : List Roll) (tail : Tail) (combined negative : Bool) :
    (group first others tail combined negative).throw patience =
      throwOthers patience combined (first :: others) [] >>= fun faces =>
        .complete (.group first others tail combined negative) (tail.score? negative (tail.limited faces)) := by
  simp only [throw, throwOthers, bind_assoc, List.nil_append]

end Roll

end Tabletop
