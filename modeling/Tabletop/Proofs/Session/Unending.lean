import Tabletop.Proofs.Session.Budget
import Tabletop.Proofs.Throw.Range

/-!
# Evaluations without a budget

Without a budget nothing is refused, and an evaluation asks for what it asks for. It may ask for dice for ever: a plain
reroll does where its test accepts all that the die can show. A budget refuses exactly the evaluations that ask for more
dice than it allows, those that never end among them.
-/

namespace Tabletop

set_option autoImplicit false

namespace Session

variable {σ α : Type} {roller : Roller σ} {session : Session σ} {limit : Nat}

end Session

end Tabletop
