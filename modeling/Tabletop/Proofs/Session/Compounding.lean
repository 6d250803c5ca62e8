import Mathlib
import Tabletop.Proofs.Session.Course
import Tabletop.Proofs.Session.Explosions
import Tabletop.Proofs.Throw.Streaks

/-!
# How far compounded dice go

Every accepted face on the table earns one streak of throws, and what it adds up to is put behind the faces. The streaks
are thrown one after the other, and a sum that is put down earns nothing itself. A sum that leaves the whole numbers on
the way ends everything.
-/

namespace Tabletop

set_option autoImplicit false

open Notation (Running running_nil running_cons)

namespace Explosion

variable {die : Die} {test : Test} {patience : Nat}

/-- Goes over places in a list of faces. Each face that is accepted there has its sum put behind all of them. -/
def survey (die : Die) (test : Test) (patience : Nat) : List Nat → List Face → Throw (List Face)
  | [], faces =>
    .done faces
  | place :: places, faces =>
    match faces[place]? with
    | some face =>
      if test.accepts face.value then do
        let sum ← compound die test patience .zero
        survey die test patience places (faces ++ [.synthetic sum])
      else survey die test patience places faces
    | none => survey die test patience places faces

theorem survey_eq (die : Die) (test : Test) (patience : Nat) (before faces added : List Face) :
    survey die test patience (List.range' before.length faces.length) (before ++ faces ++ added) = (do
      let sums ← (faces.filter fun face => test.accepts face.value).mapM fun _ => compound die test patience .zero
      .done (before ++ faces ++ added ++ sums.map Face.synthetic)) := by
  induction faces generalizing before added with
  | nil =>
      simp only [List.length_nil, List.range'_zero, List.filter_nil, List.mapM_nil, pure_bind, List.map_nil,
        List.append_nil]
      rfl
  | cons face faces ih =>
      have here : (before ++ face :: faces ++ added)[before.length]? = some face := by simp
      have others (added : List Face) := ih (before ++ [face]) added
      simp only [List.length_append, List.length_singleton, List.append_assoc, List.cons_append, List.nil_append]
        at others
      rw [List.length_cons, List.range'_succ, survey, here]
      cases accepted : test.accepts face.value with
      | true =>
          simp only [List.filter_cons, accepted, if_true, List.mapM_cons, bind_assoc, pure_bind, List.append_assoc,
            List.cons_append, List.nil_append, others, List.map_cons]
      | false =>
          simp only [List.filter_cons, accepted, Bool.false_eq_true, if_false, List.append_assoc, List.cons_append,
            others]

/-- Compounded dice go over the faces place by place, and only over those that were there at first. -/
theorem faces_eq_survey (die : Die) (test : Test) (patience : Nat) (faces : List Face) :
    Explosion.faces patience die ⟨.compounded, test⟩ faces =
      survey die test patience (List.range faces.length) faces := by
  have surveyed := survey_eq die test patience [] faces []
  rw [List.nil_append, List.append_nil, List.length_nil, ← List.range_eq_range'] at surveyed
  exact surveyed.symm

/-- The face shows the sum of a streak; so far as it is summed up it is a whole number. -/
structure Totals (test : Test) (thrown : List Whole) (face : Face) : Prop where
  streak : ∃ last, test.Streak thrown last
  running : Running 0 (thrown.map Whole.val)
  total : face.value.val = (thrown.map Whole.val).sum
  synthetic : face = .synthetic face.value

theorem compound_course_zero {values : List Whole} {total : Whole} :
    (compound die test patience .zero).Course die values (.ok total) ↔
      values.length ≤ patience ∧ Totals test values (.synthetic total) := by
  have zero : Whole.zero.val = 0 := rfl
  rw [Throw.compound_course, zero, Int.zero_add]
  constructor
  · rintro ⟨short, streak, running, same⟩
    exact ⟨short, streak, running, same, rfl⟩
  · rintro ⟨short, streak, running, same, -⟩
    exact ⟨short, streak, running, same⟩

theorem exists_compound_overflow_zero {earlier : List Whole} {last : Whole}
    (all : ∀ value ∈ earlier, test.accepts value = true) (enough : (earlier ++ [last]).length ≤ patience)
    (broken : ¬Running 0 ((earlier ++ [last]).map Whole.val)) :
    ∃ part, part <+: earlier ++ [last] ∧ (compound die test patience .zero).Course die part (.error .overflow) := by
  have zero : Whole.zero.val = 0 := rfl
  rw [← zero] at broken
  exact Throw.exists_compound_overflow all enough broken

theorem exists_course_of_streak {streak : List Whole} {last : Whole} (taken : test.Streak streak last)
    (enough : streak.length ≤ patience) :
    (∃ sum, (compound die test patience .zero).Course die streak (.ok sum)) ∨
      ∃ part, part <+: streak ∧ (compound die test patience .zero).Course die part (.error .overflow) := by
  by_cases running : Running 0 (streak.map Whole.val)
  · have range : Whole.InRange (streak.map Whole.val).sum := by simpa using running _ List.prefix_rfl
    exact .inl ⟨⟨_, range.1, range.2⟩, compound_course_zero.mpr ⟨enough, ⟨last, taken⟩, running, rfl, rfl⟩⟩
  · obtain ⟨earlier, rfl, all⟩ := taken.accepted
    exact .inr (exists_compound_overflow_zero all enough running)

def Sums (test : Test) (owed : Nat) (values : List Whole) (added : List Face) : Prop :=
  ∃ streaks, values = streaks.flatten ∧ List.Forall₂ (Totals test) streaks added ∧ added.length = owed

/-- Behind fewer streaks than are owed the next one has begun, and on its way some sum is no whole number. -/
def Leaves (test : Test) (owed : Nat) (values : List Whole) : Prop :=
  ∃ (streaks : List (List Whole)) (earlier : List Whole) (last : Whole),
    values = streaks.flatten ++ (earlier ++ [last]) ∧ streaks.length < owed ∧
      (∀ thrown ∈ streaks, ∃ last, test.Streak thrown last) ∧ (∀ value ∈ earlier, test.accepts value = true) ∧
      ¬Running 0 ((earlier ++ [last]).map Whole.val)

section

variable {α β : Type} {entries : List α} {values : List Whole}

theorem forall_second {property : β → Prop} {results : List β} :
    List.Forall₂ (fun _ result => property result) entries results ↔
      entries.length = results.length ∧ ∀ result ∈ results, property result := by
  constructor
  · intro each
    refine ⟨each.length_eq, ?_⟩
    induction each with
    | nil => exact List.forall_mem_nil _
    | cons first _ ih => exact List.forall_mem_cons.mpr ⟨first, ih⟩
  · rintro ⟨same, each⟩
    induction entries generalizing results with
    | nil => rw [List.eq_nil_of_length_eq_zero same.symm]; exact .nil
    | cons entry entries ih =>
        cases results with
        | nil => cases same
        | cons result results =>
            obtain ⟨first, others⟩ := List.forall_mem_cons.mp each
            exact .cons first (ih (Nat.succ.inj same) others)

theorem sums_of_course {sums : List Whole}
    (course : (entries.mapM fun _ => compound die test patience .zero).Course die values (.ok sums)) :
    Sums test entries.length values (sums.map Face.synthetic) := by
  obtain ⟨steps, each, rfl, rfl⟩ := Throw.course_map_ok.mp course
  obtain ⟨same, each⟩ := forall_second.mp each
  refine ⟨steps.map Throw.Step.thrown, rfl, ?_, ?_⟩
  · rw [List.map_map, List.forall₂_map_left_iff, List.forall₂_map_right_iff, List.forall₂_same]
    exact fun step found => (compound_course_zero.mp (each step found)).2
  · rw [List.length_map, List.length_map, same]

theorem course_of_sums (die : Die) {added : List Face} (sums : Sums test entries.length values added)
    (enough : values.length ≤ patience) :
    ∃ totals, (entries.mapM fun _ => compound die test patience .zero).Course die values (.ok totals) ∧
      added = totals.map Face.synthetic := by
  obtain ⟨streaks, rfl, each, owed⟩ := sums
  obtain ⟨steps, rfl, rfl, totals⟩ := Throw.forall_steps.mp each
  let summed (step : Throw.Step Face) : Throw.Step Whole := ⟨step.thrown, step.result.value⟩
  refine ⟨steps.map fun step => step.result.value, Throw.course_map_ok.mpr ⟨steps.map summed, ?_, ?_, ?_⟩, ?_⟩
  · rw [forall_second, List.forall_mem_map, List.length_map, ← owed, List.length_map]
    refine ⟨rfl, fun step found => compound_course_zero.mpr ⟨?_, ?_⟩⟩
    · have short : step.thrown.length ≤ (steps.flatMap Throw.Step.thrown).length := Throw.Step.length_thrown_le found
      exact Nat.le_trans short enough
    · exact (totals step found).synthetic ▸ totals step found
  · rw [List.flatMap_map]
    rfl
  · rw [List.map_map]
    rfl
  · rw [List.map_map]
    exact List.map_congr_left fun step found => (totals step found).synthetic

theorem leaves_of_course
    (course : (entries.mapM fun _ => compound die test patience .zero).Course die values (.error .overflow)) :
    Leaves test entries.length values := by
  obtain ⟨before, entry, after, steps, part, rfl, each, failed, rfl⟩ := Throw.course_map_error course
  obtain ⟨same, each⟩ := forall_second.mp each
  obtain ⟨earlier, last, rfl, all, broken⟩ := Throw.compound_course_overflow failed
  refine ⟨steps.map Throw.Step.thrown, earlier, last, rfl, ?_, ?_, all, broken⟩
  · rw [List.length_map, ← same, List.length_append, List.length_cons]
    omega
  · exact List.forall_mem_map.mpr fun step found => (compound_course_zero.mp (each step found)).2.streak

theorem exists_course_of_leaves (die : Die) (leaves : Leaves test entries.length values)
    (enough : values.length ≤ patience) :
    ∃ part, part <+: values ∧
      (entries.mapM fun _ => compound die test patience .zero).Course die part (.error .overflow) := by
  let compounds : α → Throw Whole := fun _ => compound die test patience .zero
  obtain ⟨streaks, earlier, last, rfl, fewer, each, all, broken⟩ := leaves
  induction streaks generalizing entries with
  | nil =>
      cases entries with
      | nil => cases fewer
      | cons entry entries =>
          obtain ⟨part, before, failed⟩ := exists_compound_overflow_zero all enough broken
          exact ⟨part, before, Throw.course_map_first compounds entry entries failed⟩
  | cons streak streaks ih =>
      cases entries with
      | nil => cases fewer
      | cons entry entries =>
          obtain ⟨⟨final, taken⟩, others⟩ := List.forall_mem_cons.mp each
          rw [List.flatten_cons, List.append_assoc] at enough ⊢
          rw [List.length_append] at enough
          rcases exists_course_of_streak taken (Nat.le_trans (Nat.le_add_right _ _) enough) with
            ⟨sum, first⟩ | ⟨part, before, failed⟩
          · obtain ⟨part, before, failed⟩ :=
              ih (Nat.le_trans (Nat.le_add_left _ _) enough) (Nat.lt_of_succ_lt_succ fewer) others
            exact ⟨streak ++ part, (List.prefix_append_right_inj streak).mpr before,
              Throw.course_map_later compounds entry first failed⟩
          · exact ⟨part, before.trans (List.prefix_append _ _), Throw.course_map_first compounds entry entries failed⟩

end

theorem faces_solo (die : Die) (test : Test) (patience : Nat) (faces : List Face) :
    (Explosion.faces patience die ⟨.compounded, test⟩ faces).Solo die :=
  Throw.solo_bind (Throw.solo_map (fun _ => Throw.compound_solo die test patience .zero) _) fun _ => trivial

section

variable {faces result added : List Face} {values : List Whole}

theorem sums_of_faces_course
    (course : (Explosion.faces patience die ⟨.compounded, test⟩ faces).Course die values (.ok result)) :
    ∃ added, Sums test ((faces.map (·.value)).countP test.accepts) values added ∧ result = faces ++ added := by
  obtain ⟨first, totals, rest, summed, ended, rfl⟩ := Throw.course_bind_ok.mp course
  obtain ⟨rfl, same⟩ := Throw.course_done.mp ended
  cases same
  rw [List.append_nil, countP_values]
  exact ⟨_, sums_of_course summed, rfl⟩

theorem faces_course_of_sums (die : Die)
    (sums : Sums test ((faces.map (·.value)).countP test.accepts) values added) (enough : values.length ≤ patience) :
    (Explosion.faces patience die ⟨.compounded, test⟩ faces).Course die values (.ok (faces ++ added)) := by
  rw [countP_values] at sums
  obtain ⟨totals, summed, rfl⟩ := course_of_sums die sums enough
  exact Throw.course_bind_ok.mpr ⟨values, totals, [], summed, .done _, (List.append_nil _).symm⟩

theorem leaves_of_faces_course
    (course : (Explosion.faces patience die ⟨.compounded, test⟩ faces).Course die values (.error .overflow)) :
    Leaves test ((faces.map (·.value)).countP test.accepts) values := by
  rw [countP_values]
  rcases Throw.course_bind.mp course with ⟨_, failed, same⟩ | ⟨_, _, _, _, ended, _⟩
  · cases same
    exact leaves_of_course failed
  · cases ended

theorem exists_faces_course_of_leaves (die : Die)
    (leaves : Leaves test ((faces.map (·.value)).countP test.accepts) values) (enough : values.length ≤ patience) :
    ∃ part, part <+: values ∧
      (Explosion.faces patience die ⟨.compounded, test⟩ faces).Course die part (.error .overflow) := by
  rw [countP_values] at leaves
  obtain ⟨part, before, failed⟩ := exists_course_of_leaves die leaves enough
  exact ⟨part, before, Throw.course_bind.mpr (.inl ⟨_, failed, rfl⟩)⟩

end

end Explosion

namespace Session

open Explosion

variable {σ : Type}

/-- Compounded dice throw one streak for each accepted face on the table, one behind the other, and put its sum behind
the faces there were, which stay as they are; the sums are not looked at again. As far as the budget and the patience
go, the sums come out where the values fall into those streaks, and overflow does where a sum on the way is no whole
number. Nothing else leads to either. -/
theorem compounding_closed_form (roller : Roller σ) (die : Die) (test : Test) (faces : List Face) (patience : Nat)
    (session : Session σ) (small : session.asked ≤ 18446744073709551615) :
    let run := carryOut roller (Explosion.faces patience die ⟨.compounded, test⟩ faces) session []
    let values (count : Nat) := roller.shown die count session.source
    let owed := (faces.map (·.value)).countP test.accepts
    Explosion.faces patience die ⟨.compounded, test⟩ faces = survey die test patience (List.range faces.length) faces ∧
      (∀ result, run.outcome = .ok result → ∃ count added,
        Took roller die count session [] run ∧ Sums test owed (values count) added ∧ result = faces ++ added) ∧
      (∀ count added, session.Covers count → count ≤ patience → Sums test owed (values count) added →
        run.outcome = .ok (faces ++ added)) ∧
      (run.outcome = .error .overflow → ∃ count,
        Took roller die count session [] run ∧ Leaves test owed (values count)) ∧
      ∀ count, session.Covers count → count ≤ patience → Leaves test owed (values count) →
        run.outcome = .error .overflow := by
  intro run values owed
  have solo := faces_solo die test patience faces
  refine ⟨faces_eq_survey die test patience faces, ?_, ?_, ?_, ?_⟩
  · intro result done
    obtain ⟨count, took, course⟩ := course_of_outcome solo small [] done nofun
    obtain ⟨added, sums, same⟩ := sums_of_faces_course course
    exact ⟨count, added, took, sums, same⟩
  · intro count added covered enough sums
    have short : (values count).length ≤ patience := by rwa [Roller.length_shown]
    have course := faces_course_of_sums die sums short
    exact (carry_out_of_course course small covered []).1
  · intro failed
    obtain ⟨count, took, course⟩ := course_of_outcome solo small [] failed nofun
    exact ⟨count, took, leaves_of_faces_course course⟩
  · intro count covered enough leaves
    have short : (values count).length ≤ patience := by rwa [Roller.length_shown]
    obtain ⟨part, before, course⟩ := exists_faces_course_of_leaves die leaves short
    obtain ⟨le, shown⟩ := Roller.eq_shown_of_prefix before
    rw [shown] at course
    exact (carry_out_of_course course small (covers_of_le le covered) []).1

theorem compounding_closed_form_of_sixes :
    let roller : Roller Nat := ⟨fun sides taken => ([sides.count, 1, 3].getD taken 0, taken + 1)⟩
    let six : Whole := ⟨6, by decide, by decide⟩
    let faces : List Face := [⟨six, "6"⟩, ⟨⟨2, by decide, by decide⟩, "2"⟩, ⟨six, "6"⟩]
    let sums : List Face := [⟨⟨7, by decide, by decide⟩, "7"⟩, ⟨⟨3, by decide, by decide⟩, "3"⟩]
    let session : Session Nat := start (some 3) 0
    let run (die : Die) (test : Test) :=
      carryOut roller (Explosion.faces 3 die ⟨.compounded, test⟩ faces) session []
    (run (.standard ⟨6, by decide, by decide⟩) ⟨.equal, six⟩).outcome = .ok (faces ++ sums) ∧
      (run (.standard ⟨2147483647, by decide, by decide⟩) ⟨.greater, ⟨5, by decide, by decide⟩⟩).outcome =
        .error .overflow := by
  intro roller six faces sums session run
  have covered (count : Nat) (le : count ≤ 3) : session.Covers count := covers_of_le le fun _ => rfl
  constructor
  · have closed := compounding_closed_form roller (.standard ⟨6, by decide, by decide⟩) ⟨.equal, six⟩ faces 3 session
      (by decide)
    obtain ⟨-, -, summed, -⟩ := closed
    refine summed 3 sums (covered 3 (by decide)) (by decide) ⟨[[six, .one], [⟨3, by decide, by decide⟩]], rfl, ?_, rfl⟩
    refine .cons ⟨⟨.one, .more (by decide) (.last (by decide))⟩, ?_, rfl, by decide⟩
      (.cons ⟨⟨_, .last (by decide)⟩, ?_, rfl, by decide⟩ .nil)
    · exact running_cons.mpr ⟨by decide, running_cons.mpr ⟨by decide, running_nil.mpr (by decide)⟩⟩
    · exact running_cons.mpr ⟨by decide, running_nil.mpr (by decide)⟩
  · have closed := compounding_closed_form roller (.standard ⟨2147483647, by decide, by decide⟩)
      ⟨.greater, ⟨5, by decide, by decide⟩⟩ faces 3 session (by decide)
    obtain ⟨-, -, -, -, left⟩ := closed
    refine left 2 (covered 2 (by decide)) (by decide) ⟨[], [.largest], .one, rfl, by decide, by simp, by decide, ?_⟩
    intro running
    have range := running _ List.prefix_rfl
    exact absurd range (by decide)

end Session

end Tabletop
