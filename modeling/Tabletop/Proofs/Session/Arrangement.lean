import Tabletop.Proofs.Session.Budget
import Tabletop.Proofs.Throw.Gives

/-!
# Sorted dice

The order of a single roll comes last, when all of its dice lie on the table. It says how the faces are shown, and
nothing else: on a standard die no face is negative, so the dice are worth the same in every order.
-/

namespace Tabletop

set_option autoImplicit false

/-- The two runs differ in the order of their faces alone: each shows the same ones in its own. -/
structure Run.DiffersInOrder {σ : Type} (order order' : Order) (run run' : Run σ Mishap Result) : Prop where
  session : run'.session = run.session
  worth : (run'.outcome.map fun result => (result.total, result.successes)) =
    run.outcome.map fun result => (result.total, result.successes)
  faces : ∀ result result', run.outcome = .ok result → run'.outcome = .ok result' →
    ∃ kept, order.Arranges kept result.faces ∧ order'.Arranges kept result'.faces

namespace Session

variable {σ α : Type} {roller : Roller σ}

def orOverflow : Option α → Except Mishap α
  | some value => .ok value
  | none => .error .overflow

theorem carry_out_scored (throw : Throw α) (roll : Roll) (score : α → Option Result) (session : Session σ) :
    let thrown := carryOut roller throw session []
    let run := carryOut roller (throw >>= fun value => .complete roll (score value)) session []
    run.session = thrown.session ∧ run.outcome = thrown.outcome.bind fun value => orOverflow (score value) := by
  intro thrown run
  have carried : run = thrown.followedBy fun value later => carryOut roller (.complete roll (score value)) later [] :=
    carry_out_bind throw _ session []
  rw [carried, Run.followedBy]
  cases thrown.outcome with
  | error mishap => exact ⟨rfl, rfl⟩
  | ok value =>
      dsimp only [Except.bind]
      cases score value with
      | none => exact ⟨rfl, rfl⟩
      | some result => exact ⟨rfl, rfl⟩

theorem carry_out_single (roller : Roller σ) (single : Single) (throws : single.count ≠ 0) (patience : Nat)
    (session : Session σ) :
    let thrown := carryOut roller (single.faces patience) session []
    let run := carryOut roller ((Roll.single single).throw patience) session []
    let score (faces : List Face) :=
      single.tail.score? single.multiplier.isNegative (single.order.apply (single.tail.limited faces))
    run.session = thrown.session ∧ run.outcome = thrown.outcome.bind fun faces => orOverflow (score faces) := by
  intro thrown run score
  simp only [run, Roll.throw, Single.throw, if_neg throws]
  exact carry_out_scored (single.faces patience) _ score session

theorem carry_out_arranged (roller : Roller σ) {single : Single} {sides : Sides}
    (standard : single.die = .standard sides) (order : Order) (patience : Nat) (session : Session σ) :
    let run (order : Order) := carryOut roller ((Roll.single { single with order }).throw patience) session []
    (run order).session = (run .unsorted).session ∧
      (run order).outcome = (run .unsorted).outcome.map (Result.arranged order) := by
  intro run
  by_cases idle : single.count = 0
  · have nothing (order : Order) : run order = ⟨.ok .empty, session, []⟩ := by
      have count : { single with order }.count = 0 := idle
      simp only [run, Roll.throw, Single.throw, if_pos count]
      rfl
    rw [nothing order, nothing .unsorted]
    exact ⟨rfl, congrArg Except.ok (Result.arranged_empty order).symm⟩
  · let thrown := carryOut roller (single.faces patience) session []
    let score (order : Order) (faces : List Face) :=
      single.tail.score? single.multiplier.isNegative (order.apply (single.tail.limited faces))
    have scored (order : Order) : (run order).session = thrown.session ∧
        (run order).outcome = thrown.outcome.bind fun faces => orOverflow (score order faces) :=
      carry_out_single roller { single with order } idle patience session
    obtain ⟨left, came⟩ := scored order
    obtain ⟨left', came'⟩ := scored .unsorted
    refine ⟨left.trans left'.symm, ?_⟩
    rw [came, came']
    cases ended : thrown.outcome with
    | error mishap => rfl
    | ok faces =>
        have unsigned : Tail.Unsigned (single.tail.limited faces) := fun face found =>
          carry_out_gives (Throw.faces_gives standard patience) session [] ended face (Tail.mem_of_mem_limited found)
        have same : score order faces = (score .unsorted faces).map (Result.arranged order) :=
          Tail.score_arranged unsigned order single.multiplier.isNegative
        dsimp only [Except.bind]
        rw [same]
        cases score .unsorted faces <;> rfl

theorem carry_out_differs_in_order (roller : Roller σ) (single : Single) (sides : Sides) (order order' : Order)
    (patience : Nat) (session : Session σ) :
    let run (order : Order) := carryOut roller
      ((Roll.single { single with die := .standard sides, order }).throw patience) session []
    (run order).DiffersInOrder order order' (run order') := by
  intro run
  have standard : { single with die := .standard sides }.die = .standard sides := rfl
  have arranged (order : Order) : (run order).session = (run .unsorted).session ∧
      (run order).outcome = (run .unsorted).outcome.map (Result.arranged order) :=
    carry_out_arranged roller standard order patience session
  obtain ⟨left, came⟩ := arranged order
  obtain ⟨left', came'⟩ := arranged order'
  refine ⟨left'.trans left.symm, ?_, ?_⟩
  · rw [came, came']
    cases (run .unsorted).outcome <;> rfl
  · rw [came, came']
    intro result result' done done'
    cases plain : (run .unsorted).outcome with
    | error mishap =>
        rw [plain] at done
        cases done
    | ok kept =>
        rw [plain] at done done'
        cases done
        cases done'
        exact ⟨kept.faces, order.arranges_apply kept.faces, order'.arranges_apply kept.faces⟩

/-- Changing the order of a single roll of a standard die changes how its faces are arranged, and nothing else: not
whether there is a result, not the mishap, the total or the successes, not what was asked for and not the source. An
evaluation that ends without a budget ends in every order. -/
theorem evaluate_differs_in_order (roller : Roller σ) (single : Single) (sides : Sides) (order order' : Order)
    (session : Session σ) :
    let roll (order : Order) : Roll := .single { single with die := .standard sides, order }
    (evaluate roller (roll order) session).DiffersInOrder order order' (evaluate roller (roll order') session) ∧
      ∀ run, Ends roller (roll order) session run →
        ∃ run', Ends roller (roll order') session run' ∧ run.DiffersInOrder order order' run' := by
  intro roll
  have differs (patience : Nat) : (carryOut roller ((roll order).throw patience) session []).DiffersInOrder order order'
      (carryOut roller ((roll order').throw patience) session []) :=
    carry_out_differs_in_order roller single sides order order' patience session
  refine ⟨differs session.patience, fun run ends => ?_⟩
  obtain ⟨patience, rfl, ended⟩ := ends
  refine ⟨_, ⟨patience, rfl, fun endless => ended ?_⟩, differs patience⟩
  have worth := (differs patience).worth
  rw [endless] at worth
  cases came : (carryOut roller ((roll order).throw patience) session []).outcome with
  | ok result =>
      rw [came] at worth
      cases worth
  | error mishap =>
      rw [came] at worth
      cases worth
      rfl

theorem evaluate_differs_in_order_penetrating :
    let two : Whole := ⟨2, by decide, by decide⟩
    let six : Whole := ⟨6, by decide, by decide⟩
    let sides : Sides := ⟨6, by decide, by decide⟩
    let explosion : Explosion := ⟨.penetrating, ⟨.equal, six⟩⟩
    let plain : Roll := .single ⟨two, .standard sides, [], some explosion, .unsorted, .plain⟩
    let sorted : Roll := .single ⟨two, .standard sides, [], some explosion, .descending, .plain⟩
    let session := start (some 4) (.ofList [1, 6, 6, 2])
    let one : Face := ⟨.one, "1"⟩
    let five : Face := ⟨⟨5, by decide, by decide⟩, "5"⟩
    let total : Whole := ⟨13, by decide, by decide⟩
    (evaluate Roller.scripted plain session).outcome = .ok ⟨[one, ⟨six, "6"⟩, five, one], total, .zero⟩ ∧
      (evaluate Roller.scripted sorted session).outcome = .ok ⟨[⟨six, "6"⟩, five, one, one], total, .zero⟩ ∧
      (evaluate Roller.scripted plain session).DiffersInOrder .unsorted .descending
        (evaluate Roller.scripted sorted session) := by
  intro two six sides explosion plain sorted session one five total
  have differs := evaluate_differs_in_order Roller.scripted ⟨two, .fate, [], some explosion, .unsorted, .plain⟩ sides
    .unsorted .descending session
  exact ⟨by cbv, by cbv, differs.1⟩

end Session

end Tabletop
