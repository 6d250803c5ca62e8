import Tabletop.Proofs.Roll.Audit
import Tabletop.Proofs.Throw.Course

/-!
# Streaks

A loop that throws on while a test accepts what the die shows takes a streak: values that are accepted, as many as there
are, and at last one that is refused. Redrawing a face keeps that last value; compounding adds up all of them and breaks
off where the sum is no whole number any more.
-/

namespace Tabletop

set_option autoImplicit false

open Notation (Running running_nil running_cons)

namespace Test

/-- Values that the test accepts, or none, and then the last one, which it refuses. -/
inductive Streak (test : Test) : List Whole → Whole → Prop where
  | last {value : Whole} (refused : test.accepts value = false) : Streak test [value] value
  | more {value last : Whole} {values : List Whole} (accepted : test.accepts value = true)
      (rest : Streak test values last) : Streak test (value :: values) last

variable {test : Test} {values : List Whole} {last : Whole}

theorem Streak.refused (streak : test.Streak values last) : test.accepts last = false := by
  induction streak with
  | last refused => exact refused
  | more _ _ ih => exact ih

theorem Streak.last_mem (streak : test.Streak values last) : last ∈ values := by
  induction streak with
  | last refused => exact List.mem_singleton_self _
  | more _ _ ih => exact List.mem_cons_of_mem _ ih

theorem Streak.accepted (streak : test.Streak values last) :
    ∃ earlier, values = earlier ++ [last] ∧ ∀ value ∈ earlier, test.accepts value = true := by
  induction streak with
  | last refused => exact ⟨[], rfl, List.forall_mem_nil _⟩
  | @more value _ _ accepted _ ih =>
      obtain ⟨earlier, same, all⟩ := ih
      exact ⟨value :: earlier, congrArg (value :: ·) same, List.forall_mem_cons.mpr ⟨accepted, all⟩⟩

end Test

namespace Throw

variable {die : Die} {test : Test} {values : List Whole}

theorem until_refused_solo (die : Die) (test : Test) (patience : Nat) : (untilRefused die test patience).Solo die := by
  induction patience with
  | zero => trivial
  | succ patience ih =>
      refine ⟨rfl, fun value => ?_⟩
      dsimp only
      split
      · exact ih
      · trivial

theorem until_refused_course {patience : Nat} {face : Face} :
    Course die (untilRefused die test patience) values (.ok face) ↔
      values.length ≤ patience ∧ ∃ last, test.Streak values last ∧ face = die.face last := by
  constructor
  · intro course
    induction patience generalizing values with
    | zero => cases course
    | succ patience ih =>
        cases course with
        | @one _ value values _ rest =>
            dsimp only at rest
            cases accepted : test.accepts value with
            | true =>
                rw [accepted, if_pos rfl] at rest
                obtain ⟨short, last, streak, same⟩ := ih rest
                exact ⟨Nat.succ_le_succ short, last, .more accepted streak, same⟩
            | false =>
                rw [accepted, if_neg Bool.false_ne_true] at rest
                obtain ⟨rfl, same⟩ := course_done.mp rest
                cases same
                exact ⟨Nat.succ_le_succ (Nat.zero_le _), value, .last accepted, rfl⟩
  · rintro ⟨short, last, streak, rfl⟩
    induction streak generalizing patience with
    | last refused =>
        obtain ⟨patience, rfl⟩ := Nat.exists_eq_add_of_le' short
        refine .one ?_
        rw [refused, if_neg Bool.false_ne_true]
        exact .done _
    | more accepted _ ih =>
        obtain ⟨patience, rfl⟩ := Nat.exists_eq_add_of_le' (Nat.le_trans (Nat.le_add_left 1 _) short)
        refine .one ?_
        rw [accepted, if_pos rfl]
        exact ih (Nat.le_of_succ_le_succ short)

theorem compound_solo (die : Die) (test : Test) (patience : Nat) (sum : Whole) :
    (Explosion.compound die test patience sum).Solo die := by
  induction patience generalizing sum with
  | zero => trivial
  | succ patience ih =>
      refine ⟨rfl, fun value => ?_⟩
      dsimp only
      split
      · trivial
      · split
        · exact ih _
        · trivial

theorem compound_course {patience : Nat} {sum total : Whole} :
    Course die (Explosion.compound die test patience sum) values (.ok total) ↔
      values.length ≤ patience ∧ (∃ last, test.Streak values last) ∧ Running sum.val (values.map Whole.val) ∧
        total.val = sum.val + (values.map Whole.val).sum := by
  constructor
  · intro course
    induction patience generalizing sum values with
    | zero => cases course
    | succ patience ih =>
        cases course with
        | @one _ value values _ rest =>
            cases added : sum.add? value with
            | none =>
                simp only [added] at rest
                cases rest
            | some next =>
                have reached : next.val = sum.val + value.val := Whole.add_eq_some.mp added
                simp only [added] at rest
                rw [List.map_cons, List.sum_cons, running_cons, ← Int.add_assoc, ← reached]
                cases accepted : test.accepts value with
                | true =>
                    rw [accepted, if_pos rfl] at rest
                    obtain ⟨short, ⟨last, streak⟩, running, same⟩ := ih rest
                    exact ⟨Nat.succ_le_succ short, ⟨last, .more accepted streak⟩, ⟨sum.in_range, running⟩, same⟩
                | false =>
                    rw [accepted, if_neg Bool.false_ne_true] at rest
                    obtain ⟨rfl, same⟩ := course_done.mp rest
                    cases same
                    exact ⟨Nat.succ_le_succ (Nat.zero_le _), ⟨value, .last accepted⟩,
                      ⟨sum.in_range, running_nil.mpr total.in_range⟩, (Int.add_zero _).symm⟩
  · rintro ⟨short, ⟨last, streak⟩, running, same⟩
    induction streak generalizing patience sum with
    | @last value refused =>
        obtain ⟨patience, rfl⟩ := Nat.exists_eq_add_of_le' short
        have added : sum.add? value = some total := by
          rw [Whole.add_eq_some, same]
          simp
        refine .one ?_
        simp only [added, refused, if_neg Bool.false_ne_true]
        exact .done _
    | @more value _ values accepted _ ih =>
        obtain ⟨patience, rfl⟩ := Nat.exists_eq_add_of_le' (Nat.le_trans (Nat.le_add_left 1 _) short)
        rw [List.map_cons, running_cons] at running
        obtain ⟨next, added⟩ : ∃ next, sum.add? value = some next :=
          Option.ne_none_iff_exists'.mp fun none => by
            have range := Notation.running_in_range running.2
            rcases Whole.ofInt?_eq_none.mp none with low | high <;> rw [Whole.InRange] at range <;> omega
        have reached : next.val = sum.val + value.val := Whole.add_eq_some.mp added
        rw [List.map_cons, List.sum_cons, ← Int.add_assoc, ← reached] at same
        refine .one ?_
        simp only [added, accepted, if_true]
        exact ih (Nat.le_of_succ_le_succ short) (reached ▸ running.2) same

/-- Compounding overflows behind values that are accepted, with the first sum that is no whole number. -/
theorem compound_course_overflow {patience : Nat} {sum : Whole}
    (course : Course die (Explosion.compound die test patience sum) values (.error .overflow)) :
    ∃ earlier last, values = earlier ++ [last] ∧ (∀ value ∈ earlier, test.accepts value = true) ∧
      ¬Running sum.val (values.map Whole.val) := by
  induction patience generalizing sum values with
  | zero => cases course
  | succ patience ih =>
      cases course with
      | @one _ value values _ rest =>
          cases added : sum.add? value with
          | none =>
              simp only [added] at rest
              cases rest
              refine ⟨[], value, rfl, List.forall_mem_nil _, fun running => ?_⟩
              have range := Notation.running_in_range (running_cons.mp running).2
              rcases Whole.ofInt?_eq_none.mp added with low | high <;> rw [Whole.InRange] at range <;> omega
          | some next =>
              have reached : next.val = sum.val + value.val := Whole.add_eq_some.mp added
              simp only [added] at rest
              cases accepted : test.accepts value with
              | true =>
                  rw [accepted, if_pos rfl] at rest
                  obtain ⟨earlier, last, rfl, all, broken⟩ := ih rest
                  refine ⟨value :: earlier, last, rfl, List.forall_mem_cons.mpr ⟨accepted, all⟩, fun running => ?_⟩
                  rw [List.map_cons, running_cons, ← reached] at running
                  exact broken running.2
              | false =>
                  rw [accepted, if_neg Bool.false_ne_true] at rest
                  cases rest

theorem exists_compound_overflow {earlier : List Whole} {last : Whole}
    (all : ∀ value ∈ earlier, test.accepts value = true) {patience : Nat} {sum : Whole}
    (enough : (earlier ++ [last]).length ≤ patience) (broken : ¬Running sum.val ((earlier ++ [last]).map Whole.val)) :
    ∃ part, part <+: earlier ++ [last] ∧
      Course die (Explosion.compound die test patience sum) part (.error .overflow) := by
  induction earlier generalizing patience sum with
  | nil =>
      obtain ⟨patience, rfl⟩ := Nat.exists_eq_add_of_le' enough
      have none : sum.add? last = none := by
        refine Option.eq_none_iff_forall_ne_some.mpr fun next added => broken ?_
        rw [List.nil_append, List.map_singleton, running_cons, running_nil, ← Whole.add_eq_some.mp added]
        exact ⟨sum.in_range, next.in_range⟩
      refine ⟨[last], List.prefix_rfl, .one ?_⟩
      simp only [none]
      exact .overflow
  | cons value earlier ih =>
      obtain ⟨patience, rfl⟩ := Nat.exists_eq_add_of_le' (Nat.le_trans (Nat.le_add_left 1 _) enough)
      obtain ⟨accepted, others⟩ := List.forall_mem_cons.mp all
      cases added : sum.add? value with
      | none =>
          refine ⟨[value], List.cons_prefix_cons.mpr ⟨rfl, List.nil_prefix⟩, .one ?_⟩
          simp only [added]
          exact .overflow
      | some next =>
          rw [List.cons_append, List.map_cons, running_cons, ← Whole.add_eq_some.mp added] at broken
          have later : ¬Running next.val ((earlier ++ [last]).map Whole.val) :=
            fun running => broken ⟨sum.in_range, running⟩
          obtain ⟨part, before, course⟩ := ih others (Nat.le_of_succ_le_succ enough) later
          refine ⟨value :: part, List.cons_prefix_cons.mpr ⟨rfl, before⟩, .one ?_⟩
          simp only [added, accepted, if_true]
          exact course

end Throw

end Tabletop
