import Tabletop.Proofs.Roll.Nodes
import Tabletop.Proofs.Roll.Selection
import Tabletop.Proofs.Roll.Symbols

/-!
# What a roll can come to at most

The dice of a roll, the largest number on them and the modifiers bound every sum and every count on the way to its
total. As long as the bound is a whole number, so is each of these, and no score is missing. One face in the place of a
member needs room as well, so a roll of dice is bounded by at least one.
-/

namespace Tabletop

set_option autoImplicit false

namespace Die

/-- The most that one die adds to a sum, or takes from it. -/
def reach : Die → Nat
  | standard sides => min sides.count 2147483647
  | fate => 1

theorem reach_pos (die : Die) : 1 ≤ die.reach := by
  cases die with
  | standard sides =>
      have pos := sides.pos
      rw [reach]
      omega
  | fate => exact Nat.le_refl _

end Die

namespace Single

def bound (roll : Single) : Nat := max 1 (roll.count * roll.die.reach + roll.tail.modifier.val.natAbs)

end Single

namespace Roll

mutual

def bound : Roll → Nat
  | single roll =>
    roll.bound
  | group first others tail _ _ =>
    first.bound + boundAll others + tail.modifier.val.natAbs

def boundAll : List Roll → Nat
  | [] =>
    0
  | member :: others =>
    member.bound + boundAll others

end

theorem bound_pos (roll : Roll) : 1 ≤ roll.bound := by
  induction roll using members_induction with
  | single roll => exact Nat.le_max_left _ _
  | group first others tail combined negative ih =>
      have least := ih first List.mem_cons_self
      rw [bound]
      omega

theorem bound_le_all {member : Roll} {others : List Roll} (found : member ∈ others) :
    member.bound ≤ boundAll others := by
  induction others with
  | nil => cases found
  | cons other others ih =>
      rw [boundAll]
      rcases List.mem_cons.mp found with rfl | found
      · exact Nat.le_add_right _ _
      · exact Nat.le_trans (ih found) (Nat.le_add_left _ _)

/-- The explosion of dice; a group has none of its own. -/
def exploding : Roll → Option Explosion
  | single roll => roll.exploding
  | group .. => none

end Roll

namespace Tail

/-- The sum of the values without their signs. -/
def weight (faces : List Face) : Nat := (faces.map fun face => face.value.val.natAbs).sum

theorem weight_cons (face : Face) (faces : List Face) :
    weight (face :: faces) = face.value.val.natAbs + weight faces :=
  rfl

theorem weight_append (faces more : List Face) : weight (faces ++ more) = weight faces + weight more := by
  rw [weight, List.map_append, List.sum_append]
  rfl

theorem abs_le_weight {face : Face} {faces : List Face} (found : face ∈ faces) :
    face.value.val.natAbs ≤ weight faces :=
  List.le_sum_of_mem (List.mem_map_of_mem found)

theorem abs_sum_le_weight (faces : List Face) : (sum faces).natAbs ≤ weight faces := by
  induction faces with
  | nil => exact Nat.le_refl _
  | cons face faces ih =>
      rw [weight_cons, sum, List.map_cons, List.sum_cons]
      exact Nat.le_trans (Int.natAbs_add_le _ _) (Nat.add_le_add_left ih _)

theorem weight_le_of_subperm {faces other : List Face} (part : other.Subperm faces) : weight other ≤ weight faces := by
  obtain ⟨arranged, perm, sub⟩ := part
  have same := (perm.map fun face => face.value.val.natAbs).sum_eq
  have less := (sub.map fun face => face.value.val.natAbs).sum_le_sum fun _ _ => Nat.zero_le _
  rwa [same] at less

/-- There are no more faces than the bound, and no more on them. -/
structure Light (bound : Nat) (faces : List Face) : Prop where
  length : faces.length ≤ bound
  weight : weight faces ≤ bound

variable {bound more : Nat} {faces other : List Face}

theorem light_nil (bound : Nat) : Light bound [] := ⟨Nat.zero_le _, Nat.zero_le _⟩

theorem Light.mono (light : Light bound faces) (le : bound ≤ more) : Light more faces :=
  ⟨Nat.le_trans light.length le, Nat.le_trans light.weight le⟩

theorem Light.append (light : Light bound faces) (lightOther : Light more other) :
    Light (bound + more) (faces ++ other) where
  length := by
    rw [List.length_append]
    exact Nat.add_le_add light.length lightOther.length
  weight := by
    rw [weight_append]
    exact Nat.add_le_add light.weight lightOther.weight

theorem Light.part (light : Light bound faces) (part : other.Subperm faces) : Light bound other :=
  ⟨Nat.le_trans part.length_le light.length, Nat.le_trans (weight_le_of_subperm part) light.weight⟩

/-- Dice that stay within their reach are light. -/
theorem light_of_reach {die : Die} (each : ∀ face ∈ faces, face.value.val.natAbs ≤ die.reach) :
    Light (faces.length * die.reach) faces where
  length := Nat.le_mul_of_pos_right _ die.reach_pos
  weight := by
    have bounded := List.sum_le_card_nsmul (faces.map fun face => face.value.val.natAbs) die.reach
      (List.forall_mem_map.mpr each)
    rwa [List.length_map, smul_eq_mul] at bounded

theorem limited_sublist (tail : Tail) (faces : List Face) : (tail.limited faces).Sublist faces := by
  unfold limited
  cases tail.limit with
  | none => exact List.Sublist.refl _
  | some limit =>
      have selected := limit.apply_selects faces
      dsimp only
      split at selected
      · rw [selected]
      · exact selected.sublist

end Tail

namespace Whole

theorem exists_of_abs {n : Int} (fits : n.natAbs ≤ 2147483647) : ∃ value, ofInt? n = some value ∧ value.val = n :=
  have range : -2147483648 ≤ n ∧ n ≤ 2147483647 := by omega
  ⟨⟨n, range.1, range.2⟩, ofInt?_eq_some.mpr rfl, rfl⟩

theorem exists_add {a b : Whole} (fits : a.val.natAbs + b.val.natAbs ≤ 2147483647) :
    ∃ sum, a.add? b = some sum ∧ sum.val = a.val + b.val :=
  exists_of_abs (Nat.le_trans (Int.natAbs_add_le _ _) fits)

theorem exists_sub {a b : Whole} (fits : (a.val - b.val).natAbs ≤ 2147483647) :
    ∃ difference, a.sub? b = some difference ∧ difference.val = a.val - b.val :=
  exists_of_abs fits

theorem exists_neg {a : Whole} (fits : a.val.natAbs ≤ 2147483647) :
    ∃ opposite, a.neg? = some opposite ∧ opposite.val = -a.val :=
  exists_of_abs (by rwa [Int.natAbs_neg])

end Whole

namespace Tail

variable {tail : Tail} {bound : Nat} {faces : List Face}

theorem exists_sum {start : Whole} (fits : start.val.natAbs + weight faces ≤ 2147483647) :
    ∃ sum, faces.foldlM (fun sum face => sum.add? face.value) start = some sum := by
  induction faces generalizing start with
  | nil => exact ⟨start, rfl⟩
  | cons face faces ih =>
      rw [weight_cons] at fits
      obtain ⟨next, added, value⟩ : ∃ next, start.add? face.value = some next ∧ _ := Whole.exists_add (by omega)
      obtain ⟨sum, summed⟩ := @ih next (by omega)
      refine ⟨sum, ?_⟩
      rw [List.foldlM_cons, added]
      exact summed

theorem exists_passing {modifier start : Whole} (test : Test)
    (shift : ∀ face ∈ faces, face.value.val.natAbs + modifier.val.natAbs ≤ 2147483647)
    (fits : start.val.natAbs + faces.length ≤ 2147483647) :
    ∃ passed, faces.foldlM (fun passed face => do
      let shifted ← face.value.add? modifier
      if test.accepts shifted then passed.add? .one else some passed) start = some passed := by
  induction faces generalizing start with
  | nil => exact ⟨start, rfl⟩
  | cons face faces ih =>
      obtain ⟨ofFirst, ofOthers⟩ := List.forall_mem_cons.mp shift
      rw [List.length_cons] at fits
      have one : Whole.one.val = 1 := rfl
      obtain ⟨shifted, added, -⟩ : ∃ shifted, face.value.add? modifier = some shifted ∧ _ := Whole.exists_add ofFirst
      obtain ⟨next, raised, value⟩ : ∃ next, start.add? .one = some next ∧ _ := Whole.exists_add (by omega)
      simp only [List.foldlM_cons, added, raised, Option.bind_eq_bind, Option.bind_some]
      split
      · exact ih ofOthers (by omega)
      · exact ih ofOthers (by omega)

theorem passing_le_length (tail : Tail) (test : Option Test) (faces : List Face) :
    tail.passing test faces ≤ faces.length := by
  cases test with
  | none => exact Nat.zero_le _
  | some test => exact List.countP_le_length

/-- Where values and modifier have room together, every test can be made. -/
theorem Light.exists_passing (light : Light bound faces)
    (fits : bound + tail.modifier.val.natAbs ≤ 2147483647) (test : Option Test) :
    ∃ passed, passing? tail.modifier test faces = some passed ∧ 0 ≤ passed.val ∧ passed.val ≤ bound := by
  have counted : ∃ passed, passing? tail.modifier test faces = some passed := by
    cases test with
    | none => exact ⟨.zero, rfl⟩
    | some test =>
        have length := light.length
        apply Tail.exists_passing test
        · intro face found
          have least := abs_le_weight found
          have weight := light.weight
          omega
        · rw [show Whole.zero.val.natAbs = 0 from rfl]
          omega
  obtain ⟨passed, counted⟩ := counted
  have same : passed.val = tail.passing test faces := (passing_eq_some counted).1
  have few := tail.passing_le_length test faces
  have length := light.length
  exact ⟨passed, counted, by omega, by omega⟩

theorem Light.exists_tally (light : Light bound faces) (fits : bound + tail.modifier.val.natAbs ≤ 2147483647) :
    ∃ tally, tail.tally? faces = some tally ∧ tally.val.natAbs ≤ bound := by
  obtain ⟨successes, succeeded, lowSuccesses, highSuccesses⟩ := light.exists_passing fits tail.success
  obtain ⟨failures, failed, lowFailures, highFailures⟩ := light.exists_passing fits tail.failure
  obtain ⟨tally, difference, value⟩ : ∃ tally, successes.sub? failures = some tally ∧ _ := Whole.exists_sub (by omega)
  refine ⟨tally, ?_, by omega⟩
  simp only [tally?, succeeded, failed, Option.bind_eq_bind, Option.bind_some, difference]

theorem Light.exists_total (light : Light bound faces) (fits : bound + tail.modifier.val.natAbs ≤ 2147483647)
    (negative : Bool) : ∃ total, tail.total? negative faces = some total ∧
      total.val.natAbs ≤ bound + tail.modifier.val.natAbs := by
  have weight := light.weight
  have least := abs_sum_le_weight faces
  have zero : Whole.zero.val = 0 := rfl
  obtain ⟨sum, summed⟩ : ∃ sum, faces.foldlM (fun sum face => sum.add? face.value) Whole.zero = some sum :=
    exists_sum (by omega)
  have same : sum.val = Tail.sum faces := (fold_sum summed).1.trans (Int.zero_add _)
  obtain ⟨shifted, added, value⟩ : ∃ shifted, sum.add? tail.modifier = some shifted ∧ _ := Whole.exists_add (by omega)
  simp only [total?, summed, added, Option.bind_eq_bind, Option.bind_some]
  cases negative with
  | false => exact ⟨shifted, rfl, by omega⟩
  | true =>
      obtain ⟨total, turned, opposite⟩ : ∃ total, shifted.neg? = some total ∧ _ := Whole.exists_neg (by omega)
      exact ⟨total, turned, by omega⟩

end Tail

namespace Result

/-- The faces are light, and the total stays within their bound. -/
structure Within (bound : Nat) (result : Result) : Prop where
  light : Tail.Light bound result.faces
  total : result.total.val.natAbs ≤ bound

theorem Within.mono {bound more : Nat} {result : Result} (within : Within bound result) (le : bound ≤ more) :
    Within more result :=
  ⟨within.light.mono le, Nat.le_trans within.total le⟩

theorem within_empty (bound : Nat) : Within bound .empty := ⟨Tail.light_nil bound, Nat.zero_le _⟩

end Result

/-- Light faces have a score, whether they are summed up or tested. -/
theorem Tail.Light.exists_score {tail : Tail} {bound : Nat} {faces : List Face} (light : Tail.Light bound faces)
    (fits : bound + tail.modifier.val.natAbs ≤ 2147483647) (negative : Bool) :
    ∃ result, tail.score? negative faces = some result ∧ result.Within (bound + tail.modifier.val.natAbs) := by
  have more : bound ≤ bound + tail.modifier.val.natAbs := Nat.le_add_right _ _
  unfold score?
  split
  · obtain ⟨tally, tallied, near⟩ := light.exists_tally fits
    exact ⟨⟨faces, tally, tally⟩, by rw [tallied]; rfl, light.mono more, Nat.le_trans near more⟩
  · obtain ⟨total, totalled, near⟩ := light.exists_total fits negative
    exact ⟨⟨faces, total, .zero⟩, by rw [totalled]; rfl, light.mono more, near⟩

theorem Face.exists_negated (face : Face) (fits : face.value.val.natAbs ≤ 2147483647) :
    ∃ turned, face.negated? = some turned ∧ turned.value.val = -face.value.val := by
  obtain ⟨value, opposite, same⟩ := Whole.exists_neg fits
  exact ⟨_, Option.map_eq_some_iff.mpr ⟨value, opposite, rfl⟩, same⟩

theorem Face.exists_negated_all {faces : List Face} (fits : Tail.weight faces ≤ 2147483647) :
    ∃ turned, faces.mapM Face.negated? = some turned ∧ turned.length = faces.length ∧
      Tail.weight turned = Tail.weight faces := by
  induction faces with
  | nil => exact ⟨[], rfl, rfl, rfl⟩
  | cons face faces ih =>
      rw [Tail.weight_cons] at fits
      obtain ⟨first, ofFace, opposite⟩ := face.exists_negated (by omega)
      obtain ⟨others, ofFaces, length, kept⟩ := ih (by omega)
      refine ⟨first :: others, mapM_cons_eq_some.mpr ⟨first, others, ofFace, ofFaces, rfl⟩, ?_, ?_⟩
      · rw [List.length_cons, List.length_cons, length]
      · rw [Tail.weight_cons, Tail.weight_cons, kept, opposite, Int.natAbs_neg]

theorem Tail.Light.exists_negated {bound : Nat} {faces : List Face} (light : Tail.Light bound faces)
    (fits : bound ≤ 2147483647) : ∃ turned, faces.mapM Face.negated? = some turned ∧ Tail.Light bound turned := by
  obtain ⟨turned, found, length, kept⟩ := Face.exists_negated_all (Nat.le_trans light.weight fits)
  exact ⟨turned, found, length ▸ light.length, kept ▸ light.weight⟩

namespace Roll

theorem exists_contribution {bound : Nat} {result : Result} (within : result.Within bound) (pos : 1 ≤ bound)
    (fits : bound ≤ 2147483647) (combined : Bool) (member : Roll) :
    ∃ faces, member.contribution? combined result = some faces ∧ Tail.Light bound faces := by
  unfold contribution?
  split
  · split
    · exact within.light.exists_negated fits
    · exact ⟨result.faces, rfl, within.light⟩
  -- Here the one face needs room in the bound, also where the total is zero.
  · exact ⟨_, rfl, pos, within.total⟩

end Roll

end Tabletop
