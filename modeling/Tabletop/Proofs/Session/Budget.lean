import Mathlib
import Tabletop.Proofs.Session.CarryOut
import Tabletop.Proofs.Throw.Patience

/-!
# What a budget does

A throw that is carried out under a budget is the throw without one, up to the first request that the budget does not
cover. The budget also gives every loop an end: each round asks for one die more.
-/

namespace Tabletop.Session

set_option autoImplicit false

variable {σ α : Type} {roller : Roller σ} {session : Session σ} {limit : Nat}

/-- More patience changes nothing where less was enough. -/
theorem carry_out_extends {throw more : Throw α} (extends' : Throw.Extends throw more) (past : List Event)
    (ends : (carryOut roller throw session past).outcome ≠ .error .endless) :
    carryOut roller more session past = carryOut roller throw session past := by
  induction extends' generalizing session past with
  | done value => rfl
  | overflow => rfl
  | endless throw => exact absurd rfl ends
  | one each ih =>
      cases answer : (session.ask 1).exceeded? with
      | some limit => rw [one_refused answer, one_refused answer]
      | none =>
          rw [one_granted answer] at ends
          rw [one_granted answer, one_granted answer]
          exact ih _ _ ends
  | @many _ count _ _ each ih =>
      cases answer : (session.ask count).exceeded? with
      | some limit => rw [many_refused answer, many_refused answer]
      | none =>
          rw [many_granted answer] at ends
          rw [many_granted answer, many_granted answer]
          exact ih _ _ ends
  | note rest ih => exact ih _ ends

theorem carry_out_lasts {throw : Throw α} {patience : Nat} (lasts : Throw.Lasts patience throw)
    (budget : session.budget = some limit) (small : limit < 18446744073709551615)
    (within : session.asked ≤ limit) (enough : limit < session.asked + patience) (past : List Event) :
    (carryOut roller throw session past).outcome ≠ .error .endless := by
  induction throw generalizing session patience past with
  | done value => exact fun same => by cases same
  | overflow => exact fun same => by cases same
  | endless =>
      have none : patience = 0 := lasts
      omega
  | one die next ih =>
      rcases request_cases budget small 1 with ⟨refused, _⟩ | ⟨granted, asked, covered⟩
      · rw [one_refused refused]
        exact fun same => by cases same
      · rw [one_granted granted]
        apply ih _ (lasts _)
        · exact budget
        · exact asked ▸ covered
        · change limit < (session.ask 1).asked + (patience - 1)
          omega
  | many die count next ih =>
      rcases request_cases budget small count with ⟨refused, _⟩ | ⟨granted, asked, covered⟩
      · rw [many_refused refused]
        exact fun same => by cases same
      · rw [many_granted granted]
        apply ih _ (lasts _)
        · exact budget
        · exact asked ▸ covered
        · change limit < (session.ask count).asked + (patience - count)
          omega
  | note roll result next ih => exact ih lasts budget within enough _

/-- The first run was refused where the second one asked for more than the limit, or they are the same. -/
inductive CutOff (limit : Nat) (run wider : Run σ Mishap α) : Prop where
  | refused (outcome : run.outcome = .error (.tooManyRolls limit)) (beyond : limit < wider.session.asked)
  | same (outcome : run.outcome = wider.outcome) (asked : run.session.asked = wider.session.asked)
      (source : run.session.source = wider.session.source) (events : run.events = wider.events)
      (within : wider.session.asked ≤ limit) (kept : ∀ bound, run.outcome ≠ .error (.tooManyRolls bound))

theorem request_twice {budget : Option Nat} (wide : ∀ bound ∈ budget, limit ≤ bound)
    (small : limit < 18446744073709551615) (asked : Nat) (source : σ) (count : Nat) :
    (ask count (⟨some limit, asked, source⟩ : Session σ)).exceeded? = some limit ∧
        limit < (ask count (⟨budget, asked, source⟩ : Session σ)).asked ∨
      (ask count (⟨some limit, asked, source⟩ : Session σ)).exceeded? = none ∧
        (ask count (⟨budget, asked, source⟩ : Session σ)).exceeded? = none ∧
        (ask count (⟨some limit, asked, source⟩ : Session σ)).asked ≤ limit := by
  have request := @request_cases σ ⟨some limit, asked, source⟩ limit rfl small count
  rcases request with ⟨refused, beyond⟩ | ⟨granted, same, covered⟩
  · exact .inl ⟨refused, Nat.lt_min.mpr ⟨beyond, small⟩⟩
  · refine .inr ⟨granted, exceeded_of_le ?_, same ▸ covered⟩
    intro bound found
    exact Nat.le_trans covered (wide bound found)

theorem carry_out_cut_off (throw : Throw α) {budget : Option Nat} (wide : ∀ bound ∈ budget, limit ≤ bound)
    (small : limit < 18446744073709551615) {asked : Nat} (within : asked ≤ limit) (source : σ) (past : List Event) :
    CutOff limit (carryOut roller throw ⟨some limit, asked, source⟩ past)
      (carryOut roller throw ⟨budget, asked, source⟩ past) := by
  induction throw generalizing asked source past with
  | done value => exact .same rfl rfl rfl rfl within fun _ same => by cases same
  | overflow => exact .same rfl rfl rfl rfl within fun _ same => by cases same
  | endless => exact .same rfl rfl rfl rfl within fun _ same => by cases same
  | one die next ih =>
      rcases request_twice wide small asked source 1 with ⟨refused, beyond⟩ | ⟨granted, granted', covered⟩
      · refine .refused ?_ (Nat.lt_of_lt_of_le beyond (ask_le_one die next past))
        rw [one_refused refused]
      · rw [one_granted granted, one_granted granted']
        exact ih _ covered _ _
  | many die count next ih =>
      rcases request_twice wide small asked source count with ⟨refused, beyond⟩ | ⟨granted, granted', covered⟩
      · refine .refused ?_ (Nat.lt_of_lt_of_le beyond (ask_le_many die count next past))
        rw [many_refused refused]
      · rw [many_granted granted, many_granted granted']
        exact ih _ covered _ _
  | note roll result next ih => exact ih within source _

/-- The evaluation ends with the run: some patience is enough for it. -/
def Ends (roller : Roller σ) (roll : Roll) (session : Session σ) (run : Run σ Mishap Result) : Prop :=
  ∃ patience, carryOut roller (roll.throw patience) session [] = run ∧ run.outcome ≠ .error .endless

theorem evaluate_of_carry_out {roll : Roll} {property : Run σ Mishap Result → Prop}
    (carried : ∀ patience, property (carryOut roller (roll.throw patience) session [])) :
    property (evaluate roller roll session) ∧ ∀ run, Ends roller roll session run → property run := by
  refine ⟨carried session.patience, fun run ends => ?_⟩
  obtain ⟨patience, rfl, -⟩ := ends
  exact carried patience

theorem ends_of_done {roll : Roll} {result : Result} (done : (evaluate roller roll session).outcome = .ok result) :
    Ends roller roll session (evaluate roller roll session) := by
  refine ⟨session.patience, rfl, fun endless => ?_⟩
  cases done.symm.trans endless

theorem exists_patience {roll : Roll} {run : Run σ Mishap Result} (ends : Ends roller roll session run) :
    ∃ enough, ∀ patience, enough ≤ patience → carryOut roller (roll.throw patience) session [] = run := by
  obtain ⟨enough, rfl, ended⟩ := ends
  exact ⟨enough, fun patience le => carry_out_extends (Throw.throw_extends roll le) [] ended⟩

theorem ends_unique {roll : Roll} {run run' : Run σ Mishap Result} (ends : Ends roller roll session run)
    (ends' : Ends roller roll session run') : run = run' := by
  obtain ⟨enough, carried⟩ := exists_patience ends
  obtain ⟨enough', carried'⟩ := exists_patience ends'
  have first := carried (max enough enough') (Nat.le_max_left _ _)
  have second := carried' (max enough enough') (Nat.le_max_right _ _)
  exact first.symm.trans second

theorem evaluate_eq_of_ends {roll : Roll} {run : Run σ Mishap Result} {patience : Nat}
    (done : carryOut roller (roll.throw patience) session [] = run) (ended : run.outcome ≠ .error .endless)
    (enough : patience ≤ session.patience) : evaluate roller roll session = run := by
  subst done
  exact carry_out_extends (Throw.throw_extends roll enough) [] ended

theorem evaluate_ends (roller : Roller σ) (roll : Roll) (source : σ) (small : limit < 18446744073709551615) :
    Ends roller roll (start (some limit) source) (evaluate roller roll (start (some limit) source)) := by
  refine ⟨_, rfl, ?_⟩
  apply carry_out_lasts (Throw.throw_lasts roll _) rfl small (Nat.zero_le limit)
  change limit < 0 + (limit + 1)
  omega

/-- An evaluation that ends under a wider budget, or under none, is cut off by the limit or is the same. -/
theorem cut_off_of_ends {roll : Roll} {source : σ} {budget : Option Nat} {run : Run σ Mishap Result}
    (wide : ∀ bound ∈ budget, limit ≤ bound) (small : limit < 18446744073709551615)
    (ends : Ends roller roll (start budget source) run) :
    CutOff limit (evaluate roller roll (start (some limit) source)) run := by
  obtain ⟨patience, done, ended⟩ := ends
  subst done
  have cut : CutOff limit (carryOut roller (roll.throw patience) (start (some limit) source) [])
      (carryOut roller (roll.throw patience) (start budget source) []) :=
    carry_out_cut_off _ wide small (Nat.zero_le limit) source []
  have narrow : Ends roller roll (start (some limit) source)
      (carryOut roller (roll.throw patience) (start (some limit) source) []) := by
    refine ⟨patience, rfl, ?_⟩
    cases cut with
    | refused outcome => simp [outcome]
    | same outcome => rwa [outcome]
  rw [ends_unique (evaluate_ends roller roll source small) narrow]
  exact cut

theorem ends_of_kept {roll : Roll} {source : σ} {budget : Option Nat} (wide : ∀ bound ∈ budget, limit ≤ bound)
    (small : limit < 18446744073709551615)
    (kept : ∀ bound, (evaluate roller roll (start (some limit) source)).outcome ≠ .error (.tooManyRolls bound)) :
    Ends roller roll (start budget source) (evaluate roller roll (start budget source)) := by
  have cut : CutOff limit (evaluate roller roll (start (some limit) source))
      (carryOut roller (roll.throw (limit + 1)) (start budget source) []) :=
    carry_out_cut_off _ wide small (Nat.zero_le limit) source []
  obtain ⟨_, _, ended⟩ := evaluate_ends roller roll source small
  have enough : limit + 1 ≤ (start budget source).patience := by
    apply Nat.succ_le_succ
    cases budget with
    | none => exact Nat.le_of_lt small
    | some bound => exact wide bound rfl
  cases cut with
  | refused outcome => exact absurd outcome (kept limit)
  | same outcome =>
      rw [outcome] at ended
      rw [evaluate_eq_of_ends rfl ended enough]
      exact ⟨limit + 1, rfl, ended⟩

theorem asked_without_budget (throw : Throw α) (source : σ) :
    let run := carryOut roller throw (start none source) []
    run.session.asked = min (draws run.events) 18446744073709551615 := by
  intro run
  have kept : ∀ bound, run.outcome ≠ .error (.tooManyRolls bound) := by
    intro bound refused
    cases (refused_of_carry_out refused).1
  obtain ⟨thrown, logged, asked⟩ := asked_eq_draws throw (start none source) [] kept (Nat.zero_le _)
  rw [asked, logged]
  rfl

theorem asked_of_ends {roll : Roll} {source : σ} {run : Run σ Mishap Result}
    (ends : Ends roller roll (start none source) run) :
    run.session.asked = min (draws run.events) 18446744073709551615 := by
  obtain ⟨patience, done, _⟩ := ends
  rw [← done]
  exact asked_without_budget (roll.throw patience) source

theorem same_of_kept {roll : Roll} {source : σ} {budget : Option Nat} (wide : ∀ bound ∈ budget, limit ≤ bound)
    (small : limit < 18446744073709551615)
    (kept : ∀ bound, (evaluate roller roll (start (some limit) source)).outcome ≠ .error (.tooManyRolls bound)) :
    (evaluate roller roll (start budget source)).outcome = (evaluate roller roll (start (some limit) source)).outcome ∧
      (evaluate roller roll (start budget source)).session.asked =
        (evaluate roller roll (start (some limit) source)).session.asked ∧
      (evaluate roller roll (start budget source)).session.source =
        (evaluate roller roll (start (some limit) source)).session.source ∧
      (evaluate roller roll (start budget source)).session.asked ≤ limit := by
  cases cut_off_of_ends wide small (ends_of_kept wide small kept) with
  | refused outcome => exact absurd outcome (kept limit)
  | same outcome asked state _ within => exact ⟨outcome.symm, asked.symm, state.symm, within⟩

theorem refused_of_wider {roll : Roll} {source : σ} {wider : Nat} (le : limit ≤ wider)
    (small : wider < 18446744073709551615) {bound : Nat}
    (refused : (evaluate roller roll (start (some wider) source)).outcome = .error (.tooManyRolls bound)) :
    (evaluate roller roll (start (some limit) source)).outcome = .error (.tooManyRolls limit) := by
  obtain ⟨budget, beyond⟩ := refused_of_carry_out refused
  cases budget
  have wide : ∀ bound ∈ some wider, limit ≤ bound := by
    intro bound given
    cases given
    exact le
  have narrow : limit < 18446744073709551615 := Nat.lt_of_le_of_lt le small
  cases cut_off_of_ends wide narrow (evaluate_ends roller roll source small) with
  | refused outcome => exact outcome
  | same _ _ _ _ within => exact absurd (Nat.lt_of_lt_of_le beyond within) (Nat.not_lt.mpr le)

theorem outcome_of_draws {roll : Roll} {source : σ} {run : Run σ Mishap Result}
    (small : limit < 18446744073709551615) (ends : Ends roller roll (start none source) run) :
    (draws run.events ≤ limit → (evaluate roller roll (start (some limit) source)).outcome = run.outcome) ∧
      (limit < draws run.events →
        (evaluate roller roll (start (some limit) source)).outcome = .error (.tooManyRolls limit)) := by
  have asked := asked_of_ends ends
  have wide : ∀ bound ∈ (none : Option Nat), limit ≤ bound := by
    intro bound given
    cases given
  cases cut_off_of_ends wide small ends with
  | refused outcome beyond => exact ⟨fun covered => by omega, fun _ => outcome⟩
  | same outcome _ _ _ within => exact ⟨fun _ => outcome, fun beyond => by omega⟩

/-- A budget only ever cuts an evaluation off. Under the limit it ends. If it is not refused there, it ends in the same
way under a wider budget and under none, with the same count and source, and if it is refused under the wider budget, so
it is under the limit. An evaluation without a budget that ends after some draws is the same under the limit if that
covers the draws, and is refused otherwise. -/
theorem evaluate_cut_off (roller : Roller σ) (roll : Roll) (source : σ) {limit wider : Nat} (le : limit ≤ wider)
    (small : wider < 18446744073709551615) :
    let under (budget : Option Nat) := evaluate roller roll (start budget source)
    Ends roller roll (start (some limit) source) (under (some limit)) ∧
      ((∀ bound, (under (some limit)).outcome ≠ .error (.tooManyRolls bound)) →
        (under (some limit)).session.asked ≤ limit ∧
        ∀ budget ∈ [some wider, none], Ends roller roll (start budget source) (under budget) ∧
          (under budget).outcome = (under (some limit)).outcome ∧
          (under budget).session.asked = (under (some limit)).session.asked ∧
          (under budget).session.source = (under (some limit)).session.source) ∧
      (∀ bound, (under (some wider)).outcome = .error (.tooManyRolls bound) →
        (under (some limit)).outcome = .error (.tooManyRolls limit)) ∧
      ∀ run, Ends roller roll (start none source) run →
        (draws run.events ≤ limit → (under (some limit)).outcome = run.outcome) ∧
        (limit < draws run.events → (under (some limit)).outcome = .error (.tooManyRolls limit)) := by
  have narrow : limit < 18446744073709551615 := Nat.lt_of_le_of_lt le small
  have wide : ∀ budget ∈ [some wider, none], ∀ bound ∈ budget, limit ≤ bound := by
    intro budget found bound given
    simp only [List.mem_cons, List.not_mem_nil, or_false] at found
    rcases found with same | same
    · rw [same] at given
      cases given
      exact le
    · rw [same] at given
      cases given
  refine ⟨evaluate_ends roller roll source narrow, ?_, ?_, ?_⟩
  · intro kept
    constructor
    · obtain ⟨_, asked, _, within⟩ := same_of_kept (wide none (by simp)) narrow kept
      exact asked ▸ within
    · intro budget found
      obtain ⟨outcome, asked, state, _⟩ := same_of_kept (wide budget found) narrow kept
      exact ⟨ends_of_kept (wide budget found) narrow kept, outcome, asked, state⟩
  · intro bound refused
    exact refused_of_wider le small refused
  · intro run ends
    exact outcome_of_draws narrow ends

theorem evaluate_cut_off_two_dice :
    let roller : Roller Unit := ⟨fun _ _ => (6, ())⟩
    let six : Face := ⟨⟨6, by decide, by decide⟩, "6"⟩
    let roll : Roll := .single (.plain ⟨2, by decide, by decide⟩ (.standard ⟨6, by decide, by decide⟩))
    (evaluate roller roll (start (some 1) ())).outcome = .error (.tooManyRolls 1) ∧
      (evaluate roller roll (start (some 2) ())).outcome = .ok ⟨[six, six], ⟨12, by decide, by decide⟩, .zero⟩ := by
  intro roller six roll
  obtain ⟨_, _, _, tight⟩ := evaluate_cut_off roller roll () (show 1 ≤ 2 by decide) (by decide)
  obtain ⟨_, _, _, loose⟩ := evaluate_cut_off roller roll () (show 2 ≤ 2 by decide) (by decide)
  have outcome : (carryOut roller (roll.throw 0) (start none ()) []).outcome =
      .ok ⟨[six, six], ⟨12, by decide, by decide⟩, .zero⟩ := by cbv
  have thrown : draws (carryOut roller (roll.throw 0) (start none ()) []).events = 2 := by cbv
  have ends : Ends roller roll (start none ()) (carryOut roller (roll.throw 0) (start none ()) []) := by
    refine ⟨0, rfl, ?_⟩
    rw [outcome]
    exact fun same => by cases same
  refine ⟨(tight _ ends).2 ?_, ((loose _ ends).1 ?_).trans outcome⟩
  · rw [thrown]
    decide
  · exact Nat.le_of_eq thrown

end Tabletop.Session
