import Mathlib
import Tabletop.Proofs.Session.Course
import Tabletop.Proofs.Throw.Range
import Tabletop.Proofs.Throw.Streaks

/-!
# How faces are redrawn

Rerolls sweep over the faces one after the other, each over what the one before it left, and from left to right. Every
face takes the values that are thrown for it, and these one behind the other are all that is thrown.
-/

namespace Tabletop

set_option autoImplicit false

open Throw (Step)

namespace Reroll

/-- What a reroll throws for a face and puts in its place. -/
inductive Redraws (die : Die) (reroll : Reroll) (face : Face) : List Whole → Face → Prop where
  | kept (refused : reroll.test.accepts face.value = false) : Redraws die reroll face [] face
  | once (accepted : reroll.test.accepts face.value = true) (once : reroll.once = true) (value : Whole) :
      Redraws die reroll face [value] (die.face value)
  | plain {values : List Whole} {last : Whole} (accepted : reroll.test.accepts face.value = true)
      (plain : reroll.once = false) (streak : reroll.test.Streak values last) :
      Redraws die reroll face values (die.face last)

/-- A reroll going once over faces, with a step for each of them. -/
structure Sweep where
  reroll : Reroll
  before : List Face
  steps : List (Step Face)

namespace Sweep

def after (sweep : Sweep) : List Face := sweep.steps.map Step.result

def thrown (sweep : Sweep) : List Whole := sweep.steps.flatMap Step.thrown

def Follows (die : Die) (sweep : Sweep) : Prop :=
  List.Forall₂ (fun face step => sweep.reroll.Redraws die face step.thrown step.result) sweep.before sweep.steps

end Sweep

/-- What a sweep comes to. No face is lost, a plain reroll leaves none that its test accepts, one that accepts none
throws nothing, and a face that is replaced is in the range of the die. -/
structure Sweep.Settles (die : Die) (sweep : Sweep) : Prop where
  length : sweep.after.length = sweep.before.length
  plain : sweep.reroll.once = false → ∀ face ∈ sweep.after, sweep.reroll.test.accepts face.value = false
  idle : (∀ face ∈ sweep.before, sweep.reroll.test.accepts face.value = false) →
    sweep.thrown = [] ∧ sweep.after = sweep.before
  ranged : ∀ step ∈ sweep.steps, step.thrown ≠ [] → die.CanShow step.result.value

/-- The rerolls sweep one after the other from the first faces to the last ones. -/
inductive Sweeps (die : Die) : List Reroll → List Face → List Sweep → List Face → Prop where
  | none (faces : List Face) : Sweeps die [] faces [] faces
  | behind {rerolls : List Reroll} {sweep : Sweep} {sweeps : List Sweep} {last : List Face}
      (follows : sweep.Follows die) (rest : Sweeps die rerolls sweep.after sweeps last) :
      Sweeps die (sweep.reroll :: rerolls) sweep.before (sweep :: sweeps) last

variable {die : Die} {reroll : Reroll} {face redrawn : Face} {values : List Whole} {patience : Nat}

theorem face_solo (patience : Nat) (die : Die) (reroll : Reroll) (face : Face) :
    (reroll.face patience die face).Solo die := by
  unfold Reroll.face
  split
  · split
    · exact ⟨rfl, fun _ => trivial⟩
    · exact Throw.until_refused_solo die reroll.test patience
  · trivial

theorem redraws_of_course (course : (reroll.face patience die face).Course die values (.ok redrawn)) :
    reroll.Redraws die face values redrawn := by
  unfold Reroll.face at course
  split at course
  · rename_i accepted
    split at course
    · rename_i once
      cases course with
      | one rest =>
          obtain ⟨rfl, same⟩ := Throw.course_done.mp rest
          cases same
          exact .once accepted once _
    · rename_i plain
      obtain ⟨-, last, streak, rfl⟩ := Throw.until_refused_course.mp course
      exact .plain accepted (Bool.not_eq_true _ ▸ plain) streak
  · rename_i refused
    obtain ⟨rfl, same⟩ := Throw.course_done.mp course
    cases same
    exact .kept (Bool.not_eq_true _ ▸ refused)

theorem course_of_redraws (redraws : reroll.Redraws die face values redrawn) (enough : values.length ≤ patience) :
    (reroll.face patience die face).Course die values (.ok redrawn) := by
  unfold Reroll.face
  cases redraws with
  | kept refused =>
      rw [refused, if_neg Bool.false_ne_true]
      exact .done face
  | once accepted once value =>
      rw [accepted, if_pos rfl, once, if_pos rfl]
      exact .one (.done _)
  | plain accepted plain streak =>
      rw [accepted, if_pos rfl, plain, if_neg Bool.false_ne_true]
      exact Throw.until_refused_course.mpr ⟨enough, _, streak, rfl⟩

theorem Redraws.refused (redraws : reroll.Redraws die face values redrawn) (plain : reroll.once = false) :
    reroll.test.accepts redrawn.value = false := by
  cases redraws with
  | kept refused => exact refused
  | once _ once => exact absurd (plain.symm.trans once) Bool.false_ne_true
  | plain _ _ streak => exact streak.refused

theorem Redraws.idle (redraws : reroll.Redraws die face values redrawn)
    (refused : reroll.test.accepts face.value = false) : values = [] ∧ redrawn = face := by
  cases redraws with
  | kept _ => exact ⟨rfl, rfl⟩
  | once accepted => exact absurd (refused.symm.trans accepted) Bool.false_ne_true
  | plain accepted => exact absurd (refused.symm.trans accepted) Bool.false_ne_true

theorem Redraws.shown (redraws : reroll.Redraws die face values redrawn) (thrown : values ≠ []) :
    redrawn.value ∈ values := by
  cases redraws with
  | kept _ => exact absurd rfl thrown
  | once => exact List.mem_singleton_self _
  | plain _ _ streak => exact streak.last_mem

namespace Sweep

variable {sweep : Sweep}

theorem length_after (follows : sweep.Follows die) : sweep.after.length = sweep.before.length := by
  rw [after, List.length_map]
  exact follows.length_eq.symm

theorem refused_after (follows : sweep.Follows die) (plain : sweep.reroll.once = false) :
    ∀ face ∈ sweep.after, sweep.reroll.test.accepts face.value = false := by
  refine List.forall_mem_map.mpr fun step found => ?_
  obtain ⟨face, -, redraws⟩ := Throw.exists_entry follows found
  exact redraws.refused plain

theorem idle_of_refused (follows : sweep.Follows die)
    (refused : ∀ face ∈ sweep.before, sweep.reroll.test.accepts face.value = false) :
    sweep.thrown = [] ∧ sweep.after = sweep.before := by
  have still := ((List.forall₂_and_left _ _).mpr ⟨refused, follows⟩).imp fun _ _ both => both.2.idle both.1
  constructor
  · refine List.flatMap_eq_nil_iff.mpr fun step found => ?_
    obtain ⟨face, -, none, -⟩ := Throw.exists_entry still found
    exact none
  · have same : List.Forall₂ (· = ·) sweep.before sweep.after :=
      List.forall₂_map_right_iff.mpr (still.imp fun _ _ both => both.2.symm)
    rw [List.forall₂_eq_eq_eq] at same
    exact same.symm

theorem settles_of_follows (follows : sweep.Follows die) (ranged : ∀ value ∈ sweep.thrown, die.CanShow value) :
    sweep.Settles die where
  length := length_after follows
  plain := refused_after follows
  idle := idle_of_refused follows
  ranged step found thrown := by
    obtain ⟨face, -, redraws⟩ := Throw.exists_entry follows found
    exact ranged _ (List.mem_flatMap.mpr ⟨step, found, redraws.shown thrown⟩)

end Sweep

theorem Sweeps.length_eq {rerolls : List Reroll} {faces last : List Face} {sweeps : List Sweep}
    (swept : Sweeps die rerolls faces sweeps last) : last.length = faces.length := by
  induction swept with
  | none => rfl
  | behind follows _ ih => rw [ih, Sweep.length_after follows]

theorem Sweeps.follows {rerolls : List Reroll} {faces last : List Face} {sweeps : List Sweep}
    (swept : Sweeps die rerolls faces sweeps last) : ∀ sweep ∈ sweeps, sweep.Follows die := by
  induction swept with
  | none => exact List.forall_mem_nil _
  | behind follows _ ih => exact List.forall_mem_cons.mpr ⟨follows, ih⟩

theorem sweeps_of_course {rerolls : List Reroll} {faces last : List Face}
    (course : (rerolls.foldlM (Reroll.faces patience die) faces).Course die values (.ok last)) :
    ∃ sweeps, Sweeps die rerolls faces sweeps last ∧ values = sweeps.flatMap Sweep.thrown := by
  induction rerolls generalizing faces values with
  | nil =>
      obtain ⟨rfl, same⟩ := Throw.course_done.mp course
      cases same
      exact ⟨[], .none _, rfl⟩
  | cons reroll rerolls ih =>
      obtain ⟨first, redrawn, rest, swept, others, rfl⟩ := Throw.course_bind_ok.mp course
      obtain ⟨steps, each, rfl, rfl⟩ := Throw.course_map_ok.mp swept
      obtain ⟨sweeps, behind, rfl⟩ := ih others
      have follows : Sweep.Follows die ⟨reroll, faces, steps⟩ := each.imp fun face step => redraws_of_course
      exact ⟨⟨reroll, faces, steps⟩ :: sweeps, .behind follows behind, rfl⟩

theorem course_of_sweeps {rerolls : List Reroll} {faces last : List Face} {sweeps : List Sweep}
    (swept : Sweeps die rerolls faces sweeps last) (enough : (sweeps.flatMap Sweep.thrown).length ≤ patience) :
    (rerolls.foldlM (Reroll.faces patience die) faces).Course die (sweeps.flatMap Sweep.thrown) (.ok last) := by
  induction swept with
  | none faces => exact .done faces
  | @behind rerolls sweep sweeps last follows _ ih =>
      rw [List.flatMap_cons, List.length_append] at enough
      have each : List.Forall₂ (fun face step =>
          (sweep.reroll.face patience die face).Course die step.thrown (.ok step.result)) sweep.before sweep.steps := by
        have short : ∀ step ∈ sweep.steps, step.thrown.length ≤ patience := fun step found =>
          Nat.le_trans (Step.length_thrown_le found) (Nat.le_trans (Nat.le_add_right _ _) enough)
        have both := ((List.forall₂_and_left _ _).mpr ⟨short, List.Forall₂.flip follows⟩).flip
        exact both.imp fun face step holds => course_of_redraws holds.2 holds.1
      have first : (Reroll.faces patience die sweep.before sweep.reroll).Course die sweep.thrown (.ok sweep.after) :=
        Throw.course_map_ok.mpr ⟨sweep.steps, each, rfl, rfl⟩
      have others := ih (Nat.le_trans (Nat.le_add_left _ _) enough)
      exact Throw.course_bind_ok.mpr ⟨_, _, _, first, others, rfl⟩

theorem stage_solo (patience : Nat) (die : Die) (rerolls : List Reroll) (faces : List Face) :
    (rerolls.foldlM (Reroll.faces patience die) faces).Solo die :=
  Throw.solo_fold (fun faces reroll => Throw.solo_map (face_solo patience die reroll) faces) rerolls faces

end Reroll

namespace Session

open Reroll

variable {σ : Type}

/-- Rerolls sweep over the faces in their order. A face that the test refuses stays and takes no throw; any other is
replaced by the next value, or by the one that ends a streak, and these values are all that is thrown. As far as the
budget and the patience go, values that fall into such sweeps are enough for the faces to come out. -/
theorem redrawing_closed_form (roller : Roller σ) (die : Die) (rerolls : List Reroll) (faces : List Face)
    (patience : Nat) (session : Session σ) (small : session.asked ≤ 18446744073709551615) :
    let run := carryOut roller (rerolls.foldlM (Reroll.faces patience die) faces) session []
    let values (count : Nat) := roller.shown die count session.source
    (∀ result, run.outcome = .ok result → result.length = faces.length ∧ ∃ count sweeps,
      Took roller die count session [] run ∧ Sweeps die rerolls faces sweeps result ∧
        values count = sweeps.flatMap Sweep.thrown ∧ ∀ sweep ∈ sweeps, sweep.Follows die ∧ sweep.Settles die) ∧
      ∀ count sweeps result, session.Covers count → count ≤ patience → Sweeps die rerolls faces sweeps result →
        values count = sweeps.flatMap Sweep.thrown → run.outcome = .ok result := by
  intro run values
  constructor
  · intro result done
    have solo := stage_solo patience die rerolls faces
    obtain ⟨count, took, course⟩ := course_of_outcome solo small [] done nofun
    obtain ⟨sweeps, swept, same⟩ := sweeps_of_course course
    refine ⟨swept.length_eq, count, sweeps, took, swept, same, fun sweep found => ?_⟩
    have follows := swept.follows sweep found
    refine ⟨follows, Sweep.settles_of_follows follows fun value inside => ?_⟩
    have shown : value ∈ roller.shown die count session.source := by
      rw [same]
      exact List.mem_flatMap.mpr ⟨sweep, found, inside⟩
    exact roller.can_show_many die count session.source value shown
  · intro count sweeps result covered enough swept same
    have short : (sweeps.flatMap Sweep.thrown).length ≤ patience := by
      rw [← same]
      exact (roller.length_shown die count session.source).symm ▸ enough
    have course := course_of_sweeps swept short
    rw [← same] at course
    exact (carry_out_of_course course small covered []).1

theorem redrawing_closed_form_twice :
    let roller : Roller Nat := ⟨fun _ taken => ([1, 5, 1].getD taken 0, taken + 1)⟩
    let die : Die := .standard ⟨6, by decide, by decide⟩
    let two : Face := die.face ⟨2, by decide, by decide⟩
    let five : Whole := ⟨5, by decide, by decide⟩
    let rerolls : List Reroll := [⟨⟨.equal, .one⟩, false⟩, ⟨⟨.equal, five⟩, true⟩]
    let run := carryOut roller (rerolls.foldlM (Reroll.faces 3 die) [die.face .one, two]) (start (some 3) 0) []
    run.outcome = .ok [die.face .one, two] ∧
      ∃ sweeps : List Sweep, roller.shown die 3 0 = sweeps.flatMap Sweep.thrown ∧
        sweeps.map (fun sweep => sweep.steps.map Step.thrown) = [[[.one, five], []], [[.one], []]] := by
  intro roller die two five rerolls run
  let first : Sweep := ⟨⟨⟨.equal, .one⟩, false⟩, [die.face .one, two], [⟨[.one, five], die.face five⟩, ⟨[], two⟩]⟩
  let second : Sweep := ⟨⟨⟨.equal, five⟩, true⟩, [die.face five, two], [⟨[.one], die.face .one⟩, ⟨[], two⟩]⟩
  have redrawn : first.Follows die :=
    List.Forall₂.cons (.plain rfl rfl (.more rfl (.last rfl))) (.cons (.kept rfl) .nil)
  have replaced : second.Follows die := List.Forall₂.cons (.once rfl rfl .one) (.cons (.kept rfl) .nil)
  have swept : Sweeps die rerolls [die.face .one, two] [first, second] [die.face .one, two] :=
    .behind redrawn (.behind replaced (.none _))
  have closed := redrawing_closed_form roller die rerolls [die.face .one, two] 3 (start (some 3) 0) (by decide)
  have done := closed.2 3 [first, second] _ (fun _ => rfl) (by decide) swept (by decide)
  exact ⟨done, [first, second], by decide, rfl⟩

end Session

end Tabletop
