import Tabletop.Proofs.Session.Budget
import Tabletop.Proofs.Throw.Assures

/-!
# Evaluations that cannot overflow

The bound of a roll is told from the roll alone. Where no dice explode and the bound is a whole number, an evaluation
never overflows, whatever the source answers and whatever the budget is, and what it comes to stays within the bound.
-/

namespace Tabletop

set_option autoImplicit false

structure Run.StaysWithin {σ : Type} (bound : Nat) (run : Run σ Mishap Result) : Prop where
  exact : run.outcome ≠ .error .overflow
  total : ∀ result, run.outcome = .ok result → result.total.val.natAbs ≤ bound
  faces : ∀ result, run.outcome = .ok result → (result.faces.map fun face => face.value.val.natAbs).sum ≤ bound

namespace Session

variable {σ α : Type} {roller : Roller σ}

theorem carry_out_assures {property : α → Prop} {throw : Throw α} (assures : throw.Assures property)
    (session : Session σ) (past : List Event) :
    (carryOut roller throw session past).outcome ≠ .error .overflow ∧
      ∀ value, (carryOut roller throw session past).outcome = .ok value → property value := by
  induction throw generalizing session past with
  | done value =>
      refine ⟨nofun, fun other same => ?_⟩
      cases same
      exact assures
  | overflow => exact assures.elim
  | endless => exact ⟨nofun, nofun⟩
  | one die next ih =>
      cases answer : (session.ask 1).exceeded? with
      | some limit =>
          rw [one_refused answer]
          exact ⟨nofun, nofun⟩
      | none =>
          rw [one_granted answer]
          exact ih _ (assures _ (roller.can_show_one die session.source)) _ _
  | many die count next ih =>
      cases answer : (session.ask count).exceeded? with
      | some limit =>
          rw [many_refused answer]
          exact ⟨nofun, nofun⟩
      | none =>
          rw [many_granted answer]
          have length : ((roller.throwMany die count session.source).1.map die.shown).length = count := by
            rw [List.length_map, length_throw_many]
          exact ih _ (assures _ length (roller.can_show_many die count session.source)) _ _
  | note roll result next ih => exact ih assures session _

/-- Without exploding dice, a bound that is a whole number rules out every overflow. It bounds the total, and the sum of
all faces without their signs. -/
theorem evaluate_within_bound (roller : Roller σ) (roll : Roll) (session : Session σ)
    (unexploded : ∀ node ∈ roll.nodes, node.exploding = none) (fits : roll.bound ≤ 2147483647) :
    (evaluate roller roll session).StaysWithin roll.bound ∧
      ∀ run, Ends roller roll session run → run.StaysWithin roll.bound := by
  apply evaluate_of_carry_out
  intro patience
  obtain ⟨exact, kept⟩ := carry_out_assures (Throw.throw_assures roll patience unexploded fits) session []
  exact ⟨exact, fun result done => (kept result done).total, fun result done => (kept result done).light.weight⟩

theorem evaluate_within_bound_attained :
    let roller : Roller Unit := ⟨fun _ _ => (5000000000, ())⟩
    let dice : Roll := .single (.plain .one (.standard ⟨4294967295, by decide, by decide⟩))
    let roll : Roll := .group dice [] .plain false true
    roll.bound = 2147483647 ∧ (evaluate roller roll (start (some 1) ())).StaysWithin 2147483647 ∧
      (evaluate roller roll (start (some 1) ())).outcome =
        .ok ⟨[.synthetic .largest], ⟨-2147483647, by decide, by decide⟩, .zero⟩ := by
  intro roller dice roll
  have within := evaluate_within_bound roller roll (start (some 1) ()) (by decide) (by decide)
  exact ⟨by decide, within.1, by cbv⟩

end Session

end Tabletop
