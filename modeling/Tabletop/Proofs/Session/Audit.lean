import Tabletop.Proofs.Roll.Audit
import Tabletop.Proofs.Session.Budget
import Tabletop.Proofs.Throw.Yields
import Tabletop.Roller.Tape

/-!
# Results can be audited

A result shows the faces that are left, and these tell the rest of it. It is so for the roll that is evaluated and for
every roll inside it that was completed, whatever the source answers and whatever the budget allows.
-/

namespace Tabletop

set_option autoImplicit false

namespace Roll

theorem audited_idle {single : Single} (zero : single.count = 0) : (Roll.single single).Audited .empty := by
  rw [Audited, if_pos (idle_of_count zero)]

theorem audited_score (roll : Roll) {negative : Bool} {faces : List Face} {result : Result}
    (thrown : roll.isIdle = false) (sign : roll.sign = if negative then -1 else 1)
    (scored : roll.tail.score? negative faces = some result) : roll.Audited result := by
  rw [Audited, thrown, if_neg Bool.false_ne_true]
  cases counts : roll.tail.counts with
  | true => exact Tail.score_counted counts scored
  | false =>
      rw [if_neg Bool.false_ne_true, sign]
      exact Tail.score_summed counts scored

theorem sign_single {single : Single} (nonzero : single.count ≠ 0) :
    (Roll.single single).sign = if single.multiplier.isNegative then -1 else 1 := by
  have thrown : single.multiplier.val ≠ 0 := fun zero => nonzero (Int.natAbs_eq_zero.mpr zero)
  simp only [sign, Whole.isNegative, decide_eq_true_eq]
  split
  · exact Int.sign_eq_neg_one_of_neg ‹_›
  · exact Int.sign_eq_one_of_pos (by omega)

end Roll

namespace Throw

theorem kept_audited : Kept Roll.Audited fun _ => True where
  idle _ := Roll.audited_idle
  dice single _ _ nonzero _ :=
    Roll.audited_score (.single single) (Roll.not_idle nonzero) (Roll.sign_single nonzero)
  contribution _ _ _ _ _ _ _ _ := trivial
  group first others tail combined negative _ _ _ scored :=
    Roll.audited_score (.group first others tail combined negative) rfl rfl scored

end Throw

namespace Session

variable {σ : Type}

/-- Every result of an evaluation can be told from its own faces, that of the roll and those noted on the way, however
much patience the evaluation takes. -/
theorem evaluate_audited (roller : Roller σ) (roll : Roll) (session : Session σ) :
    let audited (run : Run σ Mishap Result) : Prop :=
      (∀ result, run.outcome = .ok result → roll.Audited result) ∧
        ∀ node result, .rolled node result ∈ run.events → node.Audited result
    audited (evaluate roller roll session) ∧ ∀ run, Ends roller roll session run → audited run := by
  intro audited
  apply evaluate_of_carry_out
  intro patience
  have yields : (carryOut roller (roll.throw patience) session []).Yields Roll.Audited roll.Audited :=
    fresh_yields (Throw.throw_yields Throw.kept_audited roll patience) session
  exact ⟨yields.value, yields.events⟩

theorem evaluate_audited_group :
    let six : Die := .standard ⟨6, by decide, by decide⟩
    let tail : Tail := ⟨.one, none, some ⟨.greater, ⟨4, by decide, by decide⟩⟩, none⟩
    let roll : Roll := .group (.single (.plain ⟨2, by decide, by decide⟩ six)) [.single (.plain .minusOne six)] tail
      true false
    let result : Result :=
      ⟨[⟨⟨3, by decide, by decide⟩, "3"⟩, ⟨⟨4, by decide, by decide⟩, "4"⟩, ⟨⟨-2, by decide, by decide⟩, "-2"⟩],
        .one, .one⟩
    (evaluate Roller.scripted roll (start (some 3) (.ofList [3, 4, 2]))).outcome = .ok result ∧
      tail.Counted result ∧ tail.passing tail.success result.faces = 1 := by
  intro six tail roll result
  have outcome : (evaluate Roller.scripted roll (start (some 3) (.ofList [3, 4, 2]))).outcome = .ok result := by cbv
  have audited := (evaluate_audited Roller.scripted roll (start (some 3) (.ofList [3, 4, 2]))).1.1 result outcome
  exact ⟨outcome, audited, by decide⟩

end Session

end Tabletop
