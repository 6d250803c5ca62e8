import Tabletop.Proofs.Roll.Bound
import Tabletop.Proofs.Throw.Range

/-!
# What a throw assures

As long as every die shows what it can, a throw may be known never to overflow. Of dice that do not explode it is known
from their bound: redrawn faces are as many as before and lie in the same range, a limit and an order only leave faces
out, and each member adds its own bound to that of the group.
-/

namespace Tabletop

set_option autoImplicit false

namespace Throw

variable {α β : Type}

/-- Whatever the dice can show, the throw does not overflow, and its value has the property. -/
def Assures (property : α → Prop) : Throw α → Prop
  | done value => property value
  | overflow => False
  | endless => True
  | one die next => ∀ value, die.CanShow value → (next value).Assures property
  | many die count next =>
    ∀ values : List Whole, values.length = count → (∀ value ∈ values, die.CanShow value) →
      (next values).Assures property
  | note _ _ next => next.Assures property

theorem assures_bind {first : α → Prop} {second : β → Prop} {throw : Throw α} {f : α → Throw β}
    (before : throw.Assures first) (after : ∀ value, first value → (f value).Assures second) :
    (throw >>= f).Assures second := by
  induction throw with
  | done value => exact after value before
  | overflow => exact before.elim
  | endless => trivial
  | one die next ih => exact fun value can => ih value (before value can)
  | many die count next ih => exact fun values length can => ih values (before values length can)
  | note roll result next ih => exact ih before

theorem assures_checked {property : α → Prop} {value : Option α}
    (exact : ∃ result, value = some result ∧ property result) : (checked value).Assures property := by
  obtain ⟨result, rfl, right⟩ := exact
  exact right

theorem assures_complete {property : Result → Prop} (roll : Roll) {value : Option Result}
    (exact : ∃ result, value = some result ∧ property result) : (complete roll value).Assures property := by
  obtain ⟨result, rfl, right⟩ := exact
  exact right

theorem assures_map {property : β → Prop} {f : α → Throw β} {values : List α}
    (each : ∀ value ∈ values, (f value).Assures property) :
    (values.mapM f).Assures fun results =>
      results.length = values.length ∧ ∀ result ∈ results, property result := by
  induction values with
  | nil => exact ⟨rfl, List.forall_mem_nil _⟩
  | cons value values ih =>
      obtain ⟨first, others⟩ := List.forall_mem_cons.mp each
      rw [List.mapM_cons]
      apply assures_bind first
      intro result ofFirst
      apply assures_bind (ih others)
      intro results ofOthers
      exact ⟨congrArg (· + 1) ofOthers.1, List.forall_mem_cons.mpr ⟨ofFirst, ofOthers.2⟩⟩

theorem assures_fold {invariant : β → Prop} {f : β → α → Throw β}
    (each : ∀ state value, invariant state → (f state value).Assures invariant) (values : List α) {state : β}
    (start : invariant state) : (values.foldlM f state).Assures invariant := by
  induction values generalizing state with
  | nil => exact start
  | cons value values ih => exact assures_bind (each state value start) fun next reached => ih reached

end Throw

theorem Die.abs_le_reach {die : Die} {value : Whole} (can : die.CanShow value) : value.val.natAbs ≤ die.reach := by
  cases die with
  | standard sides =>
      have range : 1 ≤ value.val ∧ value.val ≤ sides.count := can
      have high := value.high
      rw [reach]
      omega
  | fate =>
      have range : -1 ≤ value.val ∧ value.val ≤ 1 := can
      rw [reach]
      omega

structure Die.Reaches (die : Die) (count : Nat) (faces : List Face) : Prop where
  length : faces.length = count
  each : ∀ face ∈ faces, face.value.val.natAbs ≤ die.reach

theorem Die.Reaches.light {die : Die} {count : Nat} {faces : List Face} (reaches : die.Reaches count faces) :
    Tail.Light (count * die.reach) faces :=
  reaches.length ▸ Tail.light_of_reach reaches.each

namespace Throw

theorem until_refused_assures (die : Die) (test : Test) (patience : Nat) :
    (untilRefused die test patience).Assures fun face => face.value.val.natAbs ≤ die.reach := by
  induction patience with
  | zero => trivial
  | succ patience ih =>
      intro value can
      dsimp only
      split
      · exact ih
      · exact Die.abs_le_reach can

theorem reroll_assures (die : Die) (reroll : Reroll) (patience : Nat) {count : Nat} {faces : List Face}
    (before : die.Reaches count faces) :
    (Reroll.faces patience die faces reroll).Assures (die.Reaches count) := by
  have each : ∀ face ∈ faces,
      (reroll.face patience die face).Assures fun face => face.value.val.natAbs ≤ die.reach := by
    intro face found
    unfold Reroll.face
    split
    · split
      · exact fun value can => Die.abs_le_reach can
      · exact until_refused_assures die reroll.test patience
    · exact before.each face found
  rw [← bind_pure (Reroll.faces patience die faces reroll)]
  apply assures_bind (assures_map each)
  intro redrawn kept
  exact ⟨kept.1.trans before.length, kept.2⟩

theorem faces_assures (single : Single) (patience : Nat) (unexploded : single.exploding = none) :
    (single.faces patience).Assures (single.die.Reaches single.count) := by
  rw [Single.faces, unexploded]
  have thrown : (many single.die single.count done).Assures fun values =>
      single.die.Reaches single.count (values.map single.die.face) := by
    intro values length can
    refine ⟨by rw [List.length_map, length], List.forall_mem_map.mpr ?_⟩
    exact fun value found => Die.abs_le_reach (can value found)
  apply assures_bind thrown
  intro values first
  apply assures_bind (assures_fold (fun _ reroll => reroll_assures single.die reroll patience) single.rerolls first)
  exact fun redrawn reaches => reaches

theorem single_assures (single : Single) (patience : Nat) (unexploded : single.exploding = none)
    (fits : single.bound ≤ 2147483647) : (single.throw patience).Assures (Result.Within single.bound) := by
  unfold Single.throw
  split
  · exact Result.within_empty _
  · have below : single.count * single.die.reach + single.tail.modifier.val.natAbs ≤ single.bound :=
      Nat.le_max_right _ _
    apply assures_bind (faces_assures single patience unexploded)
    intro faces reaches
    have part : (single.order.apply (single.tail.limited faces)).Subperm faces :=
      (single.order.apply_perm _).subperm.trans (single.tail.limited_sublist faces).subperm
    have light := reaches.light.part part
    obtain ⟨result, scored, within⟩ := light.exists_score (Nat.le_trans below fits) single.multiplier.isNegative
    exact assures_complete _ ⟨result, scored, within.mono below⟩

/-- Each member adds its bound to that of the pool. -/
theorem others_assures (patience : Nat) (combined : Bool) {others : List Roll}
    (each : ∀ member ∈ others, (member.throw patience).Assures (Result.Within member.bound)) {bound : Nat}
    {pool : List Face} (before : Tail.Light bound pool) (fits : Roll.boundAll others ≤ 2147483647) :
    (Roll.throwOthers patience combined others pool).Assures (Tail.Light (bound + Roll.boundAll others)) := by
  induction others generalizing bound pool with
  | nil => exact before
  | cons member others ih =>
      obtain ⟨ofMember, ofOthers⟩ := List.forall_mem_cons.mp each
      rw [Roll.boundAll] at fits ⊢
      rw [Roll.throwOthers, ← Nat.add_assoc]
      apply assures_bind ofMember
      intro result within
      have room : member.bound ≤ 2147483647 := Nat.le_trans (Nat.le_add_right _ _) fits
      apply assures_bind (assures_checked (Roll.exists_contribution within member.bound_pos room combined member))
      intro faces light
      exact ih ofOthers (before.append light) (Nat.le_trans (Nat.le_add_left _ _) fits)

/-- Without exploding dice a throw stays within the bound of its roll, as long as that is a whole number. -/
theorem throw_assures (roll : Roll) (patience : Nat) (unexploded : ∀ node ∈ roll.nodes, node.exploding = none)
    (fits : roll.bound ≤ 2147483647) : (roll.throw patience).Assures (Result.Within roll.bound) := by
  induction roll using Roll.members_induction with
  | single single => exact single_assures single patience (Roll.forall_nodes_single.mp unexploded) fits
  | group first others tail combined negative ih =>
      obtain ⟨-, ofFirst, ofOthers⟩ := Roll.forall_nodes_group.mp unexploded
      have inside : ∀ member ∈ first :: others, ∀ node ∈ member.nodes, node.exploding = none :=
        List.forall_mem_cons.mpr ⟨ofFirst, ofOthers⟩
      have whole : (Roll.group first others tail combined negative).bound =
          Roll.boundAll (first :: others) + tail.modifier.val.natAbs := rfl
      rw [whole] at fits ⊢
      have room : Roll.boundAll (first :: others) ≤ 2147483647 := Nat.le_trans (Nat.le_add_right _ _) fits
      have each : ∀ member ∈ first :: others, (member.throw patience).Assures (Result.Within member.bound) :=
        fun member found => ih member found (inside member found) (Nat.le_trans (Roll.bound_le_all found) room)
      rw [Roll.throw_group]
      apply assures_bind (others_assures patience combined each (Tail.light_nil 0) room)
      intro faces light
      rw [Nat.zero_add] at light
      have left : Tail.Light (Roll.boundAll (first :: others)) (tail.limited faces) :=
        light.part (tail.limited_sublist faces).subperm
      exact assures_complete _ (left.exists_score fits negative)

end Throw

end Tabletop
