import Tabletop.Throw.Basic

/-!
# Exploding dice

Every face that the test accepts earns one more throw, and so does every value thrown for it. Exploding dice add the
new faces to the others and penetrating dice add them lowered by one, yet test them as thrown. Compounded dice add up
what one face has earned and show the sum as a face of its own.
-/

namespace Tabletop

set_option autoImplicit false

namespace Explosion

/-- The face added for a value thrown: penetrating dice show one less. -/
def added? (kind : Explosion.Kind) (die : Die) (value : Whole) : Option Face :=
  match kind with
  | .penetrating => (value.sub? .one).map die.face
  | _ => some (die.face value)

/-- Throws while a throw is owed and puts the new faces behind those already there, latest first. -/
def chain (die : Die) (explosion : Explosion) : (patience owed : Nat) → List Face → Throw (List Face)
  | _, 0, added =>
    .done added.reverse
  | 0, _, _ =>
    .endless
  | patience + 1, owed + 1, added =>
    .one die fun value =>
      match added? explosion.kind die value with
      | none => .overflow
      | some face =>
        chain die explosion patience (if explosion.test.accepts value then owed + 1 else owed) (face :: added)

def compound (die : Die) (test : Test) : (patience : Nat) → (sum : Whole) → Throw Whole
  | 0, _ =>
    .endless
  | patience + 1, sum =>
    .one die fun value =>
      match sum.add? value with
      | none => .overflow
      | some sum => if test.accepts value then compound die test patience sum else .done sum

def faces (patience : Nat) (die : Die) (explosion : Explosion) (faces : List Face) : Throw (List Face) :=
  let matching := faces.filter fun face => explosion.test.accepts face.value
  match explosion.kind with
  | .compounded => do
    let sums ← matching.mapM fun _ => compound die explosion.test patience .zero
    .done (faces ++ sums.map Face.synthetic)
  | _ => do
    let added ← chain die explosion patience matching.length []
    .done (faces ++ added)

end Explosion

end Tabletop
