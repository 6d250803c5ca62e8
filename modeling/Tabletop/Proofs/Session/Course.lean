import Mathlib
import Tabletop.Proofs.Session.Replay
import Tabletop.Proofs.Throw.Course

/-!
# Runs of a single die

A run that asks for one die at a time takes as many throws as its course is long, and the values of the course are what
the die shows in them, one throw after the other. It is refused only where the budget does not cover the next throw.
-/

namespace Tabletop

set_option autoImplicit false

namespace Roller

variable {σ : Type}

def shown (roller : Roller σ) (die : Die) (count : Nat) (source : σ) : List Whole :=
  (roller.throwMany die count source).1.map die.shown

theorem shown_succ (roller : Roller σ) (die : Die) (count : Nat) (source : σ) :
    let first := roller.throwOne die source
    roller.shown die (count + 1) source = die.shown first.1 :: roller.shown die count first.2 := by
  intro first
  rw [shown, throw_many_succ]
  rfl

theorem length_shown (roller : Roller σ) (die : Die) (count : Nat) (source : σ) :
    (roller.shown die count source).length = count := by
  rw [shown, List.length_map, Session.length_throw_many]

theorem take_shown (roller : Roller σ) (die : Die) {fewer count : Nat} (le : fewer ≤ count) (source : σ) :
    (roller.shown die count source).take fewer = roller.shown die fewer source := by
  induction fewer generalizing count source with
  | zero => rfl
  | succ fewer ih =>
      obtain ⟨count, rfl⟩ := Nat.exists_eq_add_of_le' (Nat.le_trans (Nat.le_add_left 1 fewer) le)
      rw [shown_succ, shown_succ, List.take_succ_cons, ih (Nat.le_of_succ_le_succ le)]

theorem eq_shown_of_prefix {roller : Roller σ} {die : Die} {count : Nat} {source : σ} {part : List Whole}
    (before : part <+: roller.shown die count source) :
    part.length ≤ count ∧ part = roller.shown die part.length source := by
  have le : part.length ≤ count := by
    rw [← length_shown roller die count source]
    exact before.length_le
  refine ⟨le, ?_⟩
  rw [← take_shown roller die le source]
  exact List.prefix_iff_eq_take.mp before

end Roller

namespace Session

variable {σ α : Type} {roller : Roller σ} {die : Die} {session : Session σ} {past : List Event} {count : Nat}
  {run : Run σ Mishap α}

theorem served_served (count more : Nat) (source last : σ) (session : Session σ) :
    (session.served count source).served more last = session.served (count + more) last := by
  simp only [served, ask, Session.mk.injEq, true_and, and_true]
  omega

theorem served_here (session : Session σ) (small : session.asked ≤ 18446744073709551615) :
    session.served 0 session.source = session := by
  unfold served ask
  rw [Nat.add_zero, Nat.min_eq_left small]

theorem exceeded_eq_none :
    session.exceeded? = none ↔ ∀ limit ∈ session.budget, session.asked ≤ limit := by
  unfold exceeded?
  split
  · rename_i limit budget
    simp [budget]
  · rename_i budget
    simp [budget]

/-- So many throws are granted one by one. Where none is asked for, nothing is refused. -/
def Covers (session : Session σ) (count : Nat) : Prop := 0 < count → (session.ask count).exceeded? = none

theorem covers_zero (session : Session σ) : session.Covers 0 := fun some => absurd some (Nat.lt_irrefl 0)

theorem covers_succ (source : σ) :
    session.Covers (count + 1) ↔ (session.ask 1).exceeded? = none ∧ (session.served 1 source).Covers count := by
  simp only [Covers, exceeded_eq_none, served, ask]
  constructor
  · intro covered
    have within := covered (Nat.succ_pos count)
    constructor
    · intro limit budget
      have fits := within limit budget
      omega
    · intro _ limit budget
      have fits := within limit budget
      omega
  · rintro ⟨first, others⟩ _ limit budget
    rcases Nat.eq_zero_or_pos count with rfl | some
    · exact first limit budget
    · have fits := others some limit budget
      omega

theorem covers_of_le {fewer : Nat} (le : fewer ≤ count) (covered : session.Covers count) : session.Covers fewer := by
  simp only [Covers, exceeded_eq_none, ask] at covered ⊢
  intro some limit budget
  have fits := covered (Nat.lt_of_lt_of_le some le) limit budget
  omega

/-- The run took so many throws of the die, all of them granted, and nothing else happened. -/
structure Took (roller : Roller σ) (die : Die) (count : Nat) (session : Session σ) (past : List Event)
    (run : Run σ Mishap α) : Prop where
  covered : session.Covers count
  left : run.session = session.served count (roller.throwMany die count session.source).2
  told : run.events = past.reverse ++ (roller.throwMany die count session.source).1.map (.threw die)

theorem took_none (small : session.asked ≤ 18446744073709551615) (outcome : Except Mishap α) :
    Took roller die 0 session past ⟨outcome, session, past.reverse⟩ where
  covered := covers_zero session
  left := (served_here session small).symm
  told := (List.append_nil _).symm

theorem took_succ (granted : (session.ask 1).exceeded? = none)
    (took : Took roller die count (session.served 1 (roller.throwOne die session.source).2)
      (.threw die (roller.throwOne die session.source).1 :: past) run) :
    Took roller die (count + 1) session past run where
  covered := (covers_succ _).mpr ⟨granted, took.covered⟩
  left := by
    rw [took.left, served_served, Roller.throw_many_succ, Nat.add_comm]
    rfl
  told := by
    rw [took.told, Roller.throw_many_succ, List.reverse_cons, List.append_assoc]
    rfl

/-- If the die shows the values of a course and all of its throws are granted, the run is that course. -/
theorem carry_out_of_course {throw : Throw α} {outcome : Except Mishap α}
    (course : throw.Course die (roller.shown die count session.source) outcome)
    (small : session.asked ≤ 18446744073709551615) (covered : session.Covers count) (past : List Event) :
    (carryOut roller throw session past).outcome = outcome ∧
      Took roller die count session past (carryOut roller throw session past) := by
  have ended {session : Session σ} {count : Nat} (none : [] = roller.shown die count session.source) : count = 0 := by
    rw [← roller.length_shown die count session.source, ← none]
    rfl
  generalize shown : roller.shown die count session.source = values at course
  induction course generalizing count session past with
  | done value =>
      cases ended shown.symm
      exact ⟨rfl, took_none small _⟩
  | overflow =>
      cases ended shown.symm
      exact ⟨rfl, took_none small _⟩
  | endless =>
      cases ended shown.symm
      exact ⟨rfl, took_none small _⟩
  | one rest ih =>
      cases count with
      | zero => cases shown
      | succ count =>
          rw [Roller.shown_succ] at shown
          cases shown
          obtain ⟨granted, others⟩ := (covers_succ _).mp covered
          rw [one_granted granted]
          obtain ⟨same, took⟩ := ih (served_small _ _ _) others _ rfl
          exact ⟨same, took_succ granted took⟩

/-- A run that is not refused is a course of its throw. -/
theorem course_of_carry_out {throw : Throw α} (solo : throw.Solo die) (small : session.asked ≤ 18446744073709551615)
    (past : List Event)
    (kept : ∀ limit, (carryOut roller throw session past).outcome ≠ .error (.tooManyRolls limit)) :
    ∃ count, Took roller die count session past (carryOut roller throw session past) ∧
      throw.Course die (roller.shown die count session.source) (carryOut roller throw session past).outcome := by
  induction throw generalizing session past with
  | done value => exact ⟨0, took_none small _, .done value⟩
  | overflow => exact ⟨0, took_none small _, .overflow⟩
  | endless => exact ⟨0, took_none small _, .endless⟩
  | one asked next ih =>
      obtain ⟨rfl, each⟩ := solo
      cases answer : (session.ask 1).exceeded? with
      | some limit =>
          rw [one_refused answer] at kept
          exact absurd rfl (kept limit)
      | none =>
          rw [one_granted answer] at kept ⊢
          obtain ⟨count, took, course⟩ := ih _ (each _) (served_small _ _ _) _ kept
          refine ⟨count + 1, took_succ answer took, ?_⟩
          rw [Roller.shown_succ]
          exact .one course
  | many => exact solo.elim
  | note => exact solo.elim

theorem course_of_outcome {throw : Throw α} {outcome : Except Mishap α} (solo : throw.Solo die)
    (small : session.asked ≤ 18446744073709551615) (past : List Event)
    (done : (carryOut roller throw session past).outcome = outcome)
    (kept : ∀ limit, outcome ≠ .error (.tooManyRolls limit)) :
    ∃ count, Took roller die count session past (carryOut roller throw session past) ∧
      throw.Course die (roller.shown die count session.source) outcome := by
  subst done
  exact course_of_carry_out solo small past kept

end Session

end Tabletop
