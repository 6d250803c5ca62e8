import Tabletop.Roller.Basic

/-!
# A pseudorandom roller

Samples from the generator of the standard library, the same for the same seed.
-/

namespace Tabletop.Roller

set_option autoImplicit false

def generator : Roller StdGen where
  sample sides source := randNat source 1 sides.count

end Tabletop.Roller
