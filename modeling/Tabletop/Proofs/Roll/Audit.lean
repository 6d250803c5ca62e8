import Tabletop.Throw.Evaluation
import Tabletop.Proofs.Notation.Suffixes

/-!
# What a result says about its faces

The faces of a result account for the rest of it: where there are tests, they are counted, and otherwise they are summed
up. All of this is said in integers, so nothing in it can wrap; the sums on the way are whole numbers all the same.
-/

namespace Tabletop

set_option autoImplicit false

namespace Test

/-- Whether the test holds of an integer, which need not be a whole number. -/
def Holds (test : Test) (n : Int) : Prop :=
  match test.relation with
  | .equal => n = test.threshold.val
  | .greater => test.threshold.val < n
  | .less => n < test.threshold.val

instance (test : Test) (n : Int) : Decidable (test.Holds n) :=
  match test with
  | ⟨.equal, threshold⟩ => inferInstanceAs (Decidable (n = threshold.val))
  | ⟨.greater, threshold⟩ => inferInstanceAs (Decidable (threshold.val < n))
  | ⟨.less, threshold⟩ => inferInstanceAs (Decidable (n < threshold.val))

theorem accepts_eq_holds (test : Test) (value : Whole) : test.accepts value = decide (test.Holds value.val) := by
  obtain ⟨relation, threshold⟩ := test
  cases relation <;> rfl

end Test

namespace Tail

/-- How many faces pass a test with the modifier added to their values. A missing test is passed by none. -/
def passing (tail : Tail) (test : Option Test) (faces : List Face) : Nat :=
  match test with
  | none => 0
  | some test => faces.countP fun face => test.Holds (face.value.val + tail.modifier.val)

structure Counted (tail : Tail) (result : Result) : Prop where
  successes : result.successes.val =
    (tail.passing tail.success result.faces : Int) - tail.passing tail.failure result.faces
  total : result.total = result.successes
  exact : ∀ face ∈ result.faces, Whole.InRange (face.value.val + tail.modifier.val)

def sum (faces : List Face) : Int := (faces.map (·.value.val)).sum

structure Summed (tail : Tail) (sign : Int) (result : Result) : Prop where
  successes : result.successes = .zero
  total : result.total.val = sign * (sum result.faces + tail.modifier.val)
  running : Notation.Running 0 (result.faces.map (·.value.val))
  exact : Whole.InRange (sum result.faces + tail.modifier.val)

end Tail

namespace Roll

def isIdle : Roll → Bool
  | single roll => roll.multiplier.val = 0
  | group .. => false

theorem idle_of_count {roll : Single} (zero : roll.count = 0) : (single roll).isIdle = true :=
  decide_eq_true (Int.natAbs_eq_zero.mp zero)

theorem not_idle {roll : Single} (nonzero : roll.count ≠ 0) : (single roll).isIdle = false :=
  decide_eq_false fun zero => nonzero (Int.natAbs_eq_zero.mpr zero)

def sign : Roll → Int
  | single roll => roll.multiplier.val.sign
  | group _ _ _ _ negative => if negative then -1 else 1

/-- The result of the roll can be told from its faces. -/
def Audited (roll : Roll) (result : Result) : Prop :=
  if roll.isIdle then result = .empty
  else if roll.tail.counts then roll.tail.Counted result
  else roll.tail.Summed roll.sign result

end Roll

theorem Whole.add_eq_some {a b sum : Whole} : a.add? b = some sum ↔ sum.val = a.val + b.val :=
  Whole.ofInt?_eq_some

theorem Whole.in_range (value : Whole) : Whole.InRange value.val := ⟨value.low, value.high⟩

namespace Tail

variable {tail : Tail} {faces : List Face} {result : Result}

theorem fold_passing {modifier start passed : Whole} {test : Test}
    (counted : faces.foldlM (fun passed face => do
      let shifted ← face.value.add? modifier
      if test.accepts shifted then passed.add? .one else some passed) start = some passed) :
    passed.val = start.val + faces.countP (fun face => test.Holds (face.value.val + modifier.val)) ∧
      ∀ face ∈ faces, Whole.InRange (face.value.val + modifier.val) := by
  induction faces generalizing start with
  | nil =>
      cases counted
      exact ⟨(Int.add_zero _).symm, List.forall_mem_nil _⟩
  | cons face faces ih =>
      rw [List.foldlM_cons, Option.bind_eq_bind, Option.bind_eq_some_iff] at counted
      obtain ⟨next, first, counted⟩ := counted
      obtain ⟨shifted, added, first⟩ := Option.bind_eq_some_iff.mp first
      rw [Whole.add_eq_some] at added
      obtain ⟨same, exact⟩ := ih counted
      refine ⟨?_, List.forall_mem_cons.mpr ⟨added ▸ shifted.in_range, exact⟩⟩
      rw [Test.accepts_eq_holds, added] at first
      rw [same, List.countP_cons]
      by_cases holds : test.Holds (face.value.val + modifier.val)
      · rw [if_pos (decide_eq_true holds), Whole.add_eq_some] at first
        rw [first, if_pos (decide_eq_true holds)]
        change start.val + 1 + _ = _
        omega
      · rw [if_neg (by simp [holds]), Option.some.injEq] at first
        rw [first, if_neg (by simp [holds])]
        omega

/-- A count that is made is exact, and where there is a test so is every value that it looks at. -/
theorem passing_eq_some {test : Option Test} {passed : Whole}
    (counted : passing? tail.modifier test faces = some passed) :
    passed.val = tail.passing test faces ∧
      (test.isSome = true → ∀ face ∈ faces, Whole.InRange (face.value.val + tail.modifier.val)) := by
  cases test with
  | none =>
      cases counted
      exact ⟨rfl, fun given => by cases given⟩
  | some test =>
      obtain ⟨same, exact⟩ := fold_passing counted
      refine ⟨?_, fun _ => exact⟩
      rw [same]
      exact Int.zero_add _

theorem fold_sum {start sum : Whole}
    (summed : faces.foldlM (fun sum face => sum.add? face.value) start = some sum) :
    sum.val = start.val + (faces.map (·.value.val)).sum ∧
      Notation.Running start.val (faces.map (·.value.val)) := by
  induction faces generalizing start with
  | nil =>
      cases summed
      exact ⟨(Int.add_zero _).symm, Notation.running_nil.mpr (Whole.in_range _)⟩
  | cons face faces ih =>
      rw [List.foldlM_cons, Option.bind_eq_bind, Option.bind_eq_some_iff] at summed
      obtain ⟨next, added, summed⟩ := summed
      rw [Whole.add_eq_some] at added
      obtain ⟨same, running⟩ := ih summed
      rw [added] at same running
      rw [List.map_cons, List.sum_cons, ← Int.add_assoc, Notation.running_cons]
      exact ⟨same, Whole.in_range _, running⟩

theorem score_counted {negative : Bool} (counts : tail.counts = true)
    (scored : tail.score? negative faces = some result) : tail.Counted result := by
  rw [score?, if_pos counts] at scored
  obtain ⟨tally, tallied, rfl⟩ := Option.map_eq_some_iff.mp scored
  obtain ⟨successes, succeeded, rest⟩ := Option.bind_eq_some_iff.mp tallied
  obtain ⟨failures, failed, difference⟩ := Option.bind_eq_some_iff.mp rest
  obtain ⟨sameSuccesses, exactSuccesses⟩ := passing_eq_some succeeded
  obtain ⟨sameFailures, exactFailures⟩ := passing_eq_some failed
  have exact : tally.val = successes.val - failures.val := Whole.ofInt?_eq_some.mp difference
  refine ⟨?_, rfl, ?_⟩
  · rw [exact, sameSuccesses, sameFailures]
  · rw [Tail.counts, Bool.or_eq_true] at counts
    rcases counts with given | given
    · exact exactSuccesses given
    · exact exactFailures given

theorem score_summed {negative : Bool} (sums : tail.counts = false)
    (scored : tail.score? negative faces = some result) :
    tail.Summed (if negative then -1 else 1) result := by
  rw [score?, sums, if_neg Bool.false_ne_true] at scored
  obtain ⟨total, totalled, rfl⟩ := Option.map_eq_some_iff.mp scored
  obtain ⟨sum, summed, rest⟩ := Option.bind_eq_some_iff.mp totalled
  obtain ⟨shifted, added, signed⟩ := Option.bind_eq_some_iff.mp rest
  obtain ⟨same, running⟩ := fold_sum summed
  have zero : Whole.zero.val = 0 := rfl
  rw [zero, Int.zero_add] at same
  rw [Whole.add_eq_some, same] at added
  refine ⟨rfl, ?_, running, ?_⟩
  · cases negative with
    | false =>
        cases signed
        rw [if_neg Bool.false_ne_true, Int.one_mul, added]
        rfl
    | true =>
        have negated : total.val = -shifted.val := Whole.ofInt?_eq_some.mp signed
        rw [if_pos rfl, Int.neg_one_mul, negated, added]
        rfl
  · exact added ▸ shifted.in_range

end Tail

end Tabletop
