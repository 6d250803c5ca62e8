import Tabletop.Proofs.Session.Replay

/-!
# What dice can show

A source may answer whatever it likes; a die only ever shows what is in its own range.
-/

namespace Tabletop

set_option autoImplicit false

namespace Die

/-- A standard die shows 1 up to its number of sides, a Fate die -1, 0 or 1. -/
def CanShow (die : Die) (value : Whole) : Prop :=
  match die with
  | standard sides => 1 ≤ value.val ∧ value.val ≤ sides.count
  | fate => -1 ≤ value.val ∧ value.val ≤ 1

instance (die : Die) (value : Whole) : Decidable (die.CanShow value) :=
  match die with
  | standard sides => inferInstanceAs (Decidable (1 ≤ value.val ∧ value.val ≤ sides.count))
  | fate => inferInstanceAs (Decidable (-1 ≤ value.val ∧ value.val ≤ 1))

theorem can_show_shown (die : Die) {number : Nat} (low : 1 ≤ number) (high : number ≤ die.asks.count) :
    die.CanShow (die.shown number) := by
  cases die with
  | standard sides =>
      have high : number ≤ sides.count := high
      simp only [shown, Whole.capped]
      split
      · exact ⟨Int.ofNat_le.mpr low, Int.ofNat_le.mpr high⟩
      · have largest : Whole.largest.val = 2147483647 := rfl
        rw [CanShow, largest]
        omega
  | fate =>
      simp only [shown]
      split
      · decide
      · split <;> decide

end Die

namespace Roller

variable {σ : Type}

theorem can_show_one (roller : Roller σ) (die : Die) (source : σ) :
    die.CanShow (die.shown (roller.throwOne die source).1) := by
  obtain ⟨low, high⟩ := die.bounded_range (roller.sample die.asks source).1
  exact die.can_show_shown low high

theorem can_show_many (roller : Roller σ) (die : Die) (count : Nat) (source : σ) :
    ∀ value ∈ (roller.throwMany die count source).1.map die.shown, die.CanShow value := by
  induction count generalizing source with
  | zero => exact List.forall_mem_nil _
  | succ count ih =>
      rw [throw_many_succ, List.map_cons]
      exact List.forall_mem_cons.mpr ⟨roller.can_show_one die source, ih _⟩

end Roller

end Tabletop
