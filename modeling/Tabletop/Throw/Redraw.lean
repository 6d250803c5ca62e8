import Tabletop.Throw.Basic

/-!
# Redrawing faces

A reroll goes over the faces from left to right and throws the die again for each face that its test accepts: once, or
until the test refuses what the die shows.
-/

namespace Tabletop

set_option autoImplicit false

namespace Throw

/-- Throws until the test refuses the value. -/
def untilRefused (die : Die) (test : Test) : (patience : Nat) → Throw Face
  | 0 =>
    endless
  | patience + 1 =>
    one die fun value =>
      if test.accepts value then untilRefused die test patience else done (die.face value)

end Throw

namespace Reroll

def face (patience : Nat) (die : Die) (reroll : Reroll) (face : Face) : Throw Face :=
  if reroll.test.accepts face.value then
    if reroll.once then .one die fun value => .done (die.face value)
    else .untilRefused die reroll.test patience
  else
    .done face

def faces (patience : Nat) (die : Die) (faces : List Face) (reroll : Reroll) : Throw (List Face) :=
  faces.mapM (reroll.face patience die)

end Reroll

end Tabletop
