import Tabletop.Roll.Basic

/-!
# The nodes of a roll

A roll is a tree. What holds of dice, and of a group where it holds of every member, holds of all rolls.
-/

namespace Tabletop.Roll

set_option autoImplicit false

mutual

def nodes : Roll → List Roll
  | single roll =>
    [single roll]
  | group first others tail combined negative =>
    group first others tail combined negative :: (first.nodes ++ nodesAll others)

def nodesAll : List Roll → List Roll
  | [] =>
    []
  | member :: others =>
    member.nodes ++ nodesAll others

end

/-- A roll is reached from its dice through the groups around them. -/
theorem members_induction {motive : Roll → Prop} (single : ∀ roll, motive (.single roll))
    (group : ∀ first others tail combined negative, (∀ member ∈ first :: others, motive member) →
      motive (.group first others tail combined negative)) (roll : Roll) : motive roll := by
  refine Roll.rec (motive_1 := motive) (motive_2 := fun others => ∀ member ∈ others, motive member) single ?_ ?_ ?_ roll
  · intro first others tail combined negative ofFirst ofOthers
    exact group first others tail combined negative (List.forall_mem_cons.mpr ⟨ofFirst, ofOthers⟩)
  · exact List.forall_mem_nil motive
  · intro member others ofMember ofOthers
    exact List.forall_mem_cons.mpr ⟨ofMember, ofOthers⟩

theorem nodes_all_eq_flat_map (others : List Roll) : nodesAll others = others.flatMap nodes := by
  induction others with
  | nil => rfl
  | cons member others ih => rw [nodesAll, ih, List.flatMap_cons]

theorem forall_nodes_single {property : Roll → Prop} {roll : Single} :
    (∀ node ∈ (single roll).nodes, property node) ↔ property (single roll) := by
  rw [nodes, List.forall_mem_singleton]

theorem forall_nodes_group {property : Roll → Prop} {first : Roll} {others : List Roll} {tail : Tail}
    {combined negative : Bool} :
    (∀ node ∈ (group first others tail combined negative).nodes, property node) ↔
      property (group first others tail combined negative) ∧ (∀ node ∈ first.nodes, property node) ∧
        ∀ member ∈ others, ∀ node ∈ member.nodes, property node := by
  rw [nodes, List.forall_mem_cons, List.forall_mem_append, nodes_all_eq_flat_map]
  simp only [List.mem_flatMap, forall_exists_index, and_imp]
  constructor
  · intro all
    exact ⟨all.1, all.2.1, fun member found node inside => all.2.2 node member found inside⟩
  · intro all
    exact ⟨all.1, all.2.1, fun node member found inside => all.2.2 member found node inside⟩

end Tabletop.Roll
