import Mathlib.Algebra.Order.BigOperators.Group.List
import Mathlib.Data.List.Sort
import Tabletop.Proofs.Roll.Audit
import Tabletop.Proofs.Roll.Symbols

/-!
# The same faces in another order

An order sorts faces by their values and leaves those of equal value as they stand. A sum is taken face by face, so the
order could decide whether it leaves the whole numbers on the way; where no face is negative it cannot, because no sum
on the way is larger than the last one. A count never depends on the order.
-/

namespace Tabletop

set_option autoImplicit false

namespace Order

/-- The same faces with their values in order, and those of equal value as they stood before. -/
structure StablySorted (inOrder : Int → Int → Prop) (faces sorted : List Face) : Prop where
  perm : sorted.Perm faces
  ordered : sorted.Pairwise fun a b => inOrder a.value.val b.value.val
  stable : ∀ value, (sorted.filter fun face => face.value = value) = faces.filter fun face => face.value = value

/-- How the order leaves faces, told from how they stood before. -/
def Arranges : Order → List Face → List Face → Prop
  | unsorted, faces, arranged => arranged = faces
  | ascending, faces, arranged => StablySorted (· ≤ ·) faces arranged
  | descending, faces, arranged => StablySorted (· ≥ ·) faces arranged

variable {inOrder : Int → Int → Prop} [DecidableRel inOrder]

theorem stably_sorted_merge_sort (trans : ∀ a b c, inOrder a b → inOrder b c → inOrder a c)
    (total : ∀ a b, inOrder a b ∨ inOrder b a) (faces : List Face) :
    StablySorted inOrder faces (faces.mergeSort fun a b => inOrder a.value.val b.value.val) := by
  let le (a b : Face) : Bool := inOrder a.value.val b.value.val
  have le_trans (a b c : Face) (first : le a b = true) (second : le b c = true) : le a c = true :=
    decide_eq_true (trans _ _ _ (of_decide_eq_true first) (of_decide_eq_true second))
  have le_total (a b : Face) : (le a b || le b a) = true := by
    simpa [le] using total a.value.val b.value.val
  have perm : (faces.mergeSort le).Perm faces := List.mergeSort_perm faces le
  refine ⟨perm, ?_, fun value => ?_⟩
  · exact (List.pairwise_mergeSort le_trans le_total faces).imp of_decide_eq_true
  · -- Faces of one value are in order already, so they stand in the sorted list as they are.
    let equals (face : Face) : Bool := face.value = value
    have inside : (faces.filter equals).Pairwise fun a b => le a b = true := by
      refine List.pairwise_of_forall_mem_list fun a found b found' => ?_
      have same : a.value = value := of_decide_eq_true (List.mem_filter.mp found).2
      have same' : b.value = value := of_decide_eq_true (List.mem_filter.mp found').2
      have self := total value.val value.val
      rw [or_self] at self
      exact decide_eq_true (same ▸ same' ▸ self)
    have part : (faces.filter equals).Sublist ((faces.mergeSort le).filter equals) := by
      have kept := (List.sublist_mergeSort le_trans le_total inside List.filter_sublist).filter equals
      simpa only [List.filter_filter, Bool.and_self] using kept
    exact (part.eq_of_length (perm.filter equals).length_eq.symm).symm

theorem arranges_apply (order : Order) (faces : List Face) : order.Arranges faces (order.apply faces) := by
  cases order with
  | unsorted => exact rfl
  | ascending =>
      have trans (a b c : Int) (first : a ≤ b) (second : b ≤ c) : a ≤ c := Int.le_trans first second
      exact stably_sorted_merge_sort trans Int.le_total faces
  | descending =>
      have trans (a b c : Int) (first : a ≥ b) (second : b ≥ c) : a ≥ c := Int.le_trans second first
      exact stably_sorted_merge_sort trans (fun a b => Int.le_total b a) faces

end Order

namespace Tail

variable {tail : Tail} {faces other : List Face}

def Unsigned (faces : List Face) : Prop := ∀ face ∈ faces, 0 ≤ face.value.val

theorem Unsigned.sum_nonneg (unsigned : Unsigned faces) : 0 ≤ sum faces :=
  List.sum_nonneg (List.forall_mem_map.mpr unsigned)

theorem sum_cons (face : Face) (faces : List Face) : sum (face :: faces) = face.value.val + sum faces :=
  List.sum_cons

theorem sum_perm (perm : faces.Perm other) : sum faces = sum other := by
  have values : (faces.map (·.value.val)).Perm (other.map (·.value.val)) := perm.map _
  exact values.sum_eq

/-- Every count on the way lies between the first and the last, so the last one alone has to be a whole number. -/
theorem fold_passing_iff {modifier start passed : Whole} {test : Test} :
    faces.foldlM (fun passed face => do
      let shifted ← face.value.add? modifier
      if test.accepts shifted then passed.add? .one else some passed) start = some passed ↔
      passed.val = start.val + faces.countP (fun face => test.Holds (face.value.val + modifier.val)) ∧
        ∀ face ∈ faces, Whole.InRange (face.value.val + modifier.val) := by
  refine ⟨fold_passing, fun given => ?_⟩
  induction faces generalizing start with
  | nil => rw [List.foldlM_nil, Whole.ext (given.1.trans (Int.add_zero _))]; rfl
  | cons face faces ih =>
      obtain ⟨counted, fits⟩ := given
      obtain ⟨range, others⟩ := List.forall_mem_cons.mp fits
      let shifted : Whole := ⟨_, range.1, range.2⟩
      have added : face.value.add? modifier = some shifted := Whole.add_eq_some.mpr rfl
      rw [List.countP_cons] at counted
      have decided : test.accepts shifted = decide (test.Holds (face.value.val + modifier.val)) :=
        test.accepts_eq_holds shifted
      simp only [List.foldlM_cons, added, Option.bind_eq_bind, Option.bind_some, decided]
      by_cases holds : test.Holds (face.value.val + modifier.val)
      · rw [if_pos (decide_eq_true holds)] at counted
        have low := start.low
        have high := passed.high
        let next : Whole := ⟨start.val + 1, by omega, by omega⟩
        have raised : start.add? .one = some next := Whole.add_eq_some.mpr rfl
        have rest : passed.val =
            start.val + 1 + faces.countP fun face => test.Holds (face.value.val + modifier.val) := by omega
        rw [if_pos (decide_eq_true holds), raised]
        exact ih ⟨rest, others⟩
      · rw [if_neg (by simpa using holds)] at counted
        rw [if_neg (by simpa using holds)]
        exact ih ⟨counted, others⟩

theorem fold_sum_iff {start total : Whole} (unsigned : Unsigned faces) :
    faces.foldlM (fun sum face => sum.add? face.value) start = some total ↔ total.val = start.val + sum faces := by
  refine ⟨fun summed => (fold_sum summed).1, fun given => ?_⟩
  induction faces generalizing start with
  | nil => rw [List.foldlM_nil, Whole.ext (given.trans (Int.add_zero _))]; rfl
  | cons face faces ih =>
      obtain ⟨nonneg, others⟩ := List.forall_mem_cons.mp unsigned
      have rest : 0 ≤ sum faces := Unsigned.sum_nonneg others
      rw [sum_cons] at given
      have low := start.low
      have high := total.high
      let next : Whole := ⟨start.val + face.value.val, by omega, by omega⟩
      have added : start.add? face.value = some next := Whole.add_eq_some.mpr rfl
      rw [List.foldlM_cons, added]
      exact ih others (by change total.val = start.val + face.value.val + sum faces; omega)

theorem passing_perm (perm : faces.Perm other) (modifier : Whole) (test : Option Test) :
    passing? modifier test faces = passing? modifier test other := by
  cases test with
  | none => rfl
  | some test =>
      refine Option.ext fun passed => ?_
      simp only [passing?, fold_passing_iff, perm.countP_eq, perm.mem_iff]

theorem tally_perm (perm : faces.Perm other) : tail.tally? faces = tail.tally? other := by
  simp only [tally?, passing_perm perm]

/-- Only the sum of the faces matters for their total. -/
theorem total_congr (unsigned : Unsigned faces) (unsigned' : Unsigned other) (same : sum faces = sum other)
    (negative : Bool) : tail.total? negative faces = tail.total? negative other := by
  have summed : faces.foldlM (fun sum face => sum.add? face.value) Whole.zero =
      other.foldlM (fun sum face => sum.add? face.value) Whole.zero := by
    refine Option.ext fun total => ?_
    rw [fold_sum_iff unsigned, fold_sum_iff unsigned', same]
  simp only [total?, summed]

end Tail

namespace Result

def arranged (order : Order) (result : Result) : Result := { result with faces := order.apply result.faces }

theorem arranged_empty (order : Order) : empty.arranged order = empty := by
  rw [arranged, empty, (order.apply_perm []).eq_nil]

end Result

theorem Tail.score_arranged {tail : Tail} {faces : List Face} (unsigned : Unsigned faces) (order : Order)
    (negative : Bool) :
    tail.score? negative (order.apply faces) = (tail.score? negative faces).map (Result.arranged order) := by
  have perm := order.apply_perm faces
  have unsigned' : Unsigned (order.apply faces) := fun face found => unsigned face (perm.mem_iff.mp found)
  have tallied : tail.tally? (order.apply faces) = tail.tally? faces := tally_perm perm
  have totalled : tail.total? negative (order.apply faces) = tail.total? negative faces :=
    total_congr unsigned' unsigned (sum_perm perm) negative
  unfold score?
  rw [tallied, totalled]
  split <;> rw [Option.map_map] <;> rfl

/-- Faces can be counted before they are put in order. Only a sum is taken over the faces as they are shown. -/
theorem Tail.score_counted_first (tail : Tail) (order : Order) (negative : Bool) (faces : List Face) :
    tail.score? negative (order.apply faces) =
      if tail.counts then (tail.tally? faces).map fun tally => ⟨order.apply faces, tally, tally⟩
      else (tail.total? negative (order.apply faces)).map fun total => ⟨order.apply faces, total, .zero⟩ := by
  rw [score?, tally_perm (order.apply_perm faces)]

theorem Single.throw_counted_first {roll : Single} (thrown : roll.count ≠ 0) (patience : Nat) :
    roll.throw patience = roll.faces patience >>= fun faces =>
      .complete (.single roll)
        (if roll.tail.counts then
          (roll.tail.tally? (roll.tail.limited faces)).map fun tally =>
            ⟨roll.order.apply (roll.tail.limited faces), tally, tally⟩
        else
          (roll.tail.total? roll.multiplier.isNegative (roll.order.apply (roll.tail.limited faces))).map fun total =>
            ⟨roll.order.apply (roll.tail.limited faces), total, .zero⟩) := by
  simp only [Single.throw, if_neg thrown, Tail.score_counted_first]

end Tabletop
