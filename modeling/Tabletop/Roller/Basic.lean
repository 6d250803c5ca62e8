import Tabletop.Die

/-!
# Sources of faces

A roller answers each request for a die of so many sides with one sample and moves on to its next state. It promises
nothing about the sample: a die brings what it gets into its own range.
-/

namespace Tabletop

set_option autoImplicit false

structure Roller (σ : Type) where
  sample : Sides → σ → Nat × σ

namespace Roller

variable {σ : Type}

def throwOne (roller : Roller σ) (die : Die) (source : σ) : Nat × σ :=
  let answer := roller.sample die.asks source
  (die.bounded answer.1, answer.2)

/-- The numbers of so many throws of one die, in the order thrown, behind those given latest first. -/
def throwOnto (roller : Roller σ) (die : Die) (thrown : List Nat) : Nat → σ → List Nat × σ
  | 0, source =>
    (thrown.reverse, source)
  | count + 1, source =>
    let answer := roller.throwOne die source
    roller.throwOnto die (answer.1 :: thrown) count answer.2

def throwMany (roller : Roller σ) (die : Die) (count : Nat) (source : σ) : List Nat × σ :=
  roller.throwOnto die [] count source

end Roller

end Tabletop
