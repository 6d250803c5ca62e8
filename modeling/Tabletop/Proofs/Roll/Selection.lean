import Mathlib
import Tabletop.Proofs.Roll.Audit

/-!
# The faces that a limit keeps

A limit ranks faces by value and place, keeps those of the best ranks and puts them back in their old order. The values
that are kept are one end of all the values in ascending order, of equal faces the earliest stay, and no other choice of
as many faces has a better sum. The same faces are found without ranks: count how often each value is wanted, and go
through the faces from the front, taking what is still wanted.
-/

namespace Tabletop

set_option autoImplicit false

namespace Limit

theorem sum_take_cons_le {value : Int} {values : List Int} {count : Nat} (least : ∀ other ∈ values, value ≤ other)
    (enough : count ≤ values.length) : ((value :: values).take count).sum ≤ (values.take count).sum := by
  cases count with
  | zero => exact Int.le_refl _
  | succ count =>
      have next : values.take (count + 1) = values.take count ++ [values[count]] := List.take_succ_eq_append_getElem _
      have smaller : value ≤ values[count] := least _ (List.getElem_mem _)
      rw [next, List.take_succ_cons, List.sum_cons, List.sum_append, List.sum_singleton]
      omega

theorem sum_take_le_of_sublist {values chosen : List Int} (sorted : values.Pairwise (· ≤ ·))
    (sub : chosen.Sublist values) : (values.take chosen.length).sum ≤ chosen.sum := by
  induction sub with
  | slnil => exact Int.le_refl _
  | cons value sub ih =>
      obtain ⟨least, sorted⟩ := List.pairwise_cons.mp sorted
      exact Int.le_trans (sum_take_cons_le least sub.length_le) (ih sorted)
  | cons_cons value sub ih =>
      rw [List.length_cons, List.take_succ_cons, List.sum_cons, List.sum_cons]
      exact Int.add_le_add_left (ih (List.pairwise_cons.mp sorted).2) value

theorem le_sum_take_of_sublist {values chosen : List Int} (sorted : values.Pairwise (· ≥ ·))
    (sub : chosen.Sublist values) : chosen.sum ≤ (values.take chosen.length).sum := by
  have turned : (values.map (- ·)).Pairwise (· ≤ ·) :=
    List.pairwise_map.mpr (sorted.imp fun {_ _} le => Int.neg_le_neg le)
  have smallest := sum_take_le_of_sublist turned (sub.map (- ·))
  rw [List.length_map, ← List.map_take, ← List.sum_neg, ← List.sum_neg] at smallest
  exact Int.le_of_neg_le_neg smallest

variable {limit : Limit} {faces : List Face}

/-- All faces with their places, best first. -/
def ranking (limit : Limit) (faces : List Face) : List (Face × Nat) := faces.zipIdx.mergeSort limit.ahead

def best (limit : Limit) (faces : List Face) : List (Face × Nat) :=
  (limit.ranking faces).take (limit.kept faces.length)

def stays (limit : Limit) (faces : List Face) (place : Nat) : Bool := (limit.best faces).any (·.2 = place)

theorem apply_of_lt (more : limit.amount < faces.length) :
    limit.apply faces = ((limit.best faces).mergeSort fun a b => a.2 ≤ b.2).map Prod.fst :=
  if_neg (Nat.not_le.mpr more)

theorem ahead_iff {a b : Face × Nat} :
    limit.ahead a b = true ↔
      (if limit.favoursHighest then b.1.value.val < a.1.value.val else a.1.value.val < b.1.value.val) ∨
        a.1.value.val = b.1.value.val ∧ a.2 ≤ b.2 := by
  unfold ahead
  cases limit.favoursHighest <;> simp only [] <;> split <;> simp <;> omega

theorem ahead_trans (limit : Limit) (a b c : Face × Nat) (first : limit.ahead a b = true)
    (second : limit.ahead b c = true) : limit.ahead a c = true := by
  rw [ahead_iff] at first second ⊢
  split_ifs at first second ⊢ <;> omega

theorem ahead_total (limit : Limit) (a b : Face × Nat) : (limit.ahead a b || limit.ahead b a) = true := by
  rw [Bool.or_eq_true, ahead_iff, ahead_iff]
  split_ifs <;> omega

theorem perm_ranking (limit : Limit) (faces : List Face) : (limit.ranking faces).Perm faces.zipIdx :=
  List.mergeSort_perm _ _

theorem pairwise_ranking (limit : Limit) (faces : List Face) :
    (limit.ranking faces).Pairwise fun a b => limit.ahead a b = true :=
  List.pairwise_mergeSort (ahead_trans limit) (ahead_total limit) faces.zipIdx

theorem eq_of_mem_zipIdx {a b : Face × Nat} (first : a ∈ faces.zipIdx) (second : b ∈ faces.zipIdx)
    (same : a.2 = b.2) : a = b := by
  obtain ⟨face, place⟩ := a
  obtain ⟨other, _⟩ := b
  cases same
  rw [List.mk_mem_zipIdx_iff_getElem?] at first second
  rw [Option.some.inj (first.symm.trans second)]

theorem mem_of_mem_best {placed : Face × Nat} (found : placed ∈ limit.best faces) : placed ∈ faces.zipIdx :=
  (perm_ranking limit faces).mem_iff.mp (List.mem_of_mem_take found)

theorem stays_iff_mem_best {placed : Face × Nat} (found : placed ∈ faces.zipIdx) :
    limit.stays faces placed.2 = true ↔ placed ∈ limit.best faces := by
  rw [stays, List.any_eq_true]
  constructor
  · intro best
    obtain ⟨other, best, same⟩ := best
    exact eq_of_mem_zipIdx (mem_of_mem_best best) found (of_decide_eq_true same) ▸ best
  · intro best
    exact ⟨placed, best, decide_eq_true rfl⟩

theorem mergeSort_best (limit : Limit) (faces : List Face) :
    ((limit.best faces).mergeSort fun a b => a.2 ≤ b.2) = faces.zipIdx.filter (limit.stays faces ·.2) := by
  have distinct : faces.zipIdx.Nodup := List.Nodup.of_map _ (List.nodup_zipIdx_map_snd faces)
  have ordered : faces.zipIdx.Pairwise fun a b => a.2 ≤ b.2 := by
    have places : (faces.zipIdx.map Prod.snd).Pairwise (· ≤ ·) := by
      rw [List.zipIdx_map_snd]
      exact List.pairwise_le_range' 1
    exact List.pairwise_map.mp places
  have back : ((limit.best faces).mergeSort fun a b => a.2 ≤ b.2).Pairwise fun a b => a.2 ≤ b.2 := by
    have sorted := @List.pairwise_mergeSort _ (fun a b : Face × Nat => decide (a.2 ≤ b.2))
      (fun a b c first second => decide_eq_true (Nat.le_trans (of_decide_eq_true first) (of_decide_eq_true second)))
      (fun a b => by simpa using Nat.le_total a.2 b.2) (limit.best faces)
    exact sorted.imp fun {_ _} => of_decide_eq_true
  have kept : (limit.best faces).Perm (faces.zipIdx.filter (limit.stays faces ·.2)) := by
    have apart : (limit.best faces).Nodup :=
      ((perm_ranking limit faces).nodup_iff.mpr distinct).sublist (List.take_sublist _ _)
    rw [List.perm_ext_iff_of_nodup apart (distinct.filter _)]
    intro placed
    rw [List.mem_filter]
    constructor
    · intro best
      exact ⟨mem_of_mem_best best, (stays_iff_mem_best (mem_of_mem_best best)).mpr best⟩
    · intro found
      exact (stays_iff_mem_best found.1).mp found.2
  refine List.Perm.eq_of_pairwise ?_ back (ordered.filter _) ((List.mergeSort_perm _ _).trans kept)
  intro a b first second before after
  exact eq_of_mem_zipIdx (mem_of_mem_best (List.mem_mergeSort.mp first)) (List.mem_of_mem_filter second)
    (Nat.le_antisymm before after)

theorem mem_best_of_ahead {a b : Face × Nat} (found : a ∈ faces.zipIdx) (best : b ∈ limit.best faces)
    (before : limit.ahead b a = false) : a ∈ limit.best faces := by
  have ranks := pairwise_ranking limit faces
  have split : a ∈ limit.best faces ++ (limit.ranking faces).drop (limit.kept faces.length) := by
    rw [Limit.best, List.take_append_drop]
    exact (perm_ranking limit faces).mem_iff.mpr found
  rw [← List.take_append_drop (limit.kept faces.length) (limit.ranking faces), List.pairwise_append] at ranks
  rcases List.mem_append.mp split with kept | dropped
  · exact kept
  · have ahead := ranks.2.2 b best a dropped
    rw [before] at ahead
    cases ahead

theorem stays_of_earlier {i j : Nat} {face other : Face} (first : faces[i]? = some face)
    (second : faces[j]? = some other) (earlier : i < j) (same : face.value = other.value)
    (stays : limit.stays faces j = true) : limit.stays faces i = true := by
  have found : (face, i) ∈ faces.zipIdx := List.mk_mem_zipIdx_iff_getElem?.mpr first
  have later : (other, j) ∈ faces.zipIdx := List.mk_mem_zipIdx_iff_getElem?.mpr second
  refine (stays_iff_mem_best found).mpr (mem_best_of_ahead found ((stays_iff_mem_best later).mp stays) ?_)
  rw [Bool.eq_false_iff]
  intro ahead
  rw [ahead_iff] at ahead
  dsimp only at ahead
  rw [same] at ahead
  split_ifs at ahead <;> omega

def values (faces : List Face) : List Int := faces.map (·.value.val)

/-- What a limit keeps of so many values in ascending order. -/
def selection (limit : Limit) (sorted : List Int) : List Int :=
  match limit.kind with
  | .keepHighest => sorted.drop (sorted.length - limit.amount)
  | .keepLowest => sorted.take limit.amount
  | .dropHighest => sorted.take (sorted.length - limit.amount)
  | .dropLowest => sorted.drop limit.amount

def ascending (faces : List Face) : List Int := (values faces).mergeSort fun a b => a ≤ b

theorem values_ranking_perm (limit : Limit) (faces : List Face) :
    ((limit.ranking faces).map (·.1.value.val)).Perm (values faces) := by
  have ranked := (perm_ranking limit faces).map (·.1.value.val)
  have placed : faces.zipIdx.map (·.1.value.val) = values faces := by
    rw [values, ← List.zipIdx_map_fst 0 faces, List.map_map, List.zipIdx_map_fst]
    rfl
  rwa [placed] at ranked

theorem values_ranking_descending (highest : limit.favoursHighest = true) :
    ((limit.ranking faces).map (·.1.value.val)).Pairwise (· ≥ ·) := by
  refine List.pairwise_map.mpr ((pairwise_ranking limit faces).imp ?_)
  intro a b ahead
  rw [ahead_iff, highest, if_pos rfl] at ahead
  omega

theorem values_ranking_ascending (lowest : limit.favoursHighest = false) :
    ((limit.ranking faces).map (·.1.value.val)).Pairwise (· ≤ ·) := by
  refine List.pairwise_map.mpr ((pairwise_ranking limit faces).imp ?_)
  intro a b ahead
  rw [ahead_iff, lowest, if_neg Bool.false_ne_true] at ahead
  omega

/-- The ranks go through the values from their upper or their lower end. -/
theorem values_ranking (limit : Limit) (faces : List Face) :
    (limit.ranking faces).map (·.1.value.val) =
      if limit.favoursHighest then (ascending faces).reverse else ascending faces := by
  have sorted : (ascending faces).Pairwise (· ≤ ·) := List.pairwise_mergeSort' (· ≤ ·) (values faces)
  have ranked := (values_ranking_perm limit faces).trans (List.mergeSort_perm (values faces) fun a b => a ≤ b).symm
  cases highest : limit.favoursHighest with
  | true =>
      have descending : (ascending faces).reverse.Pairwise (· ≥ ·) := List.pairwise_reverse.mpr sorted
      exact (ranked.trans (List.reverse_perm _).symm).eq_of_pairwise' (values_ranking_descending highest) descending
  | false => exact ranked.eq_of_pairwise' (values_ranking_ascending highest) sorted

theorem values_best_perm (more : limit.amount < faces.length) :
    ((limit.best faces).map (·.1.value.val)).Perm (limit.selection (ascending faces)) := by
  have length : (ascending faces).length = faces.length := by
    rw [ascending, List.length_mergeSort, values, List.length_map]
  rw [best, List.map_take, values_ranking]
  unfold selection kept favoursHighest
  rw [length]
  cases limit.kind with
  | keepHighest =>
      simp only [if_true, List.take_reverse, length]
      exact List.reverse_perm _
  | keepLowest => exact List.Perm.refl _
  | dropHighest => exact List.Perm.refl _
  | dropLowest =>
      simp only [if_true, List.take_reverse, length, Nat.sub_sub_self (Nat.le_of_lt more)]
      exact List.reverse_perm _

theorem length_best (limit : Limit) (more : limit.amount < faces.length) :
    (limit.best faces).length = limit.kept faces.length := by
  have fewer : limit.kept faces.length ≤ faces.length := by
    unfold kept
    cases limit.kind <;> simp only <;> omega
  rw [best, List.length_take, (perm_ranking limit faces).length_eq, List.length_zipIdx, Nat.min_eq_left fewer]

theorem sum_best {other : List Face} (sub : other.Sublist faces)
    (length : other.length = limit.kept faces.length) :
    if limit.favoursHighest then Tail.sum other ≤ ((limit.best faces).map (·.1.value.val)).sum
    else ((limit.best faces).map (·.1.value.val)).sum ≤ Tail.sum other := by
  have spread : (values other).Subperm ((limit.ranking faces).map (·.1.value.val)) :=
    (sub.map _).subperm.trans (values_ranking_perm limit faces).symm.subperm
  have count : (values other).length = limit.kept faces.length := by rw [values, List.length_map, length]
  rw [best, List.map_take, ← count]
  change if limit.favoursHighest then (values other).sum ≤ _ else _ ≤ (values other).sum
  split
  · rename_i highest
    have sorted := List.mergeSort_perm (values other) fun a b => a ≥ b
    have chosen := List.sublist_of_subperm_of_pairwise (sorted.subperm.trans spread)
      (List.pairwise_mergeSort' (· ≥ ·) (values other)) (values_ranking_descending highest)
    have bound := le_sum_take_of_sublist (values_ranking_descending highest) chosen
    rwa [sorted.sum_eq, sorted.length_eq] at bound
  · rename_i lowest
    have lowest := Bool.eq_false_iff.mpr lowest
    have sorted := List.mergeSort_perm (values other) fun a b => a ≤ b
    have chosen := List.sublist_of_subperm_of_pairwise (sorted.subperm.trans spread)
      (List.pairwise_mergeSort' (· ≤ ·) (values other)) (values_ranking_ascending lowest)
    have bound := sum_take_le_of_sublist (values_ranking_ascending lowest) chosen
    rwa [sorted.sum_eq, sorted.length_eq] at bound

/-- Keeps, from the front, the faces whose values are still wanted, each value as often as it is wanted. -/
def retain (wanted : Int → Nat) : List Face → List Face
  | [] =>
    []
  | face :: faces =>
    let value := face.value.val
    if 0 < wanted value then face :: retain (Function.update wanted value (wanted value - 1)) faces
    else retain wanted faces

/-- Counters find the faces that stay, if of equal faces the earliest do. -/
theorem retain_eq_filter {stays : Nat → Bool} {wanted : Int → Nat} {start : Nat}
    (earliest : ∀ a ∈ faces.zipIdx start, ∀ b ∈ faces.zipIdx start, a.2 < b.2 → a.1.value = b.1.value →
      stays b.2 = true → stays a.2 = true)
    (counted : ∀ value, (((faces.zipIdx start).filter (stays ·.2)).map (·.1.value.val)).count value = wanted value) :
    retain wanted faces = ((faces.zipIdx start).filter (stays ·.2)).map Prod.fst := by
  induction faces generalizing start wanted with
  | nil => rfl
  | cons face faces ih =>
      rw [List.zipIdx_cons] at earliest counted ⊢
      have later := fun a found b other => earliest a (List.mem_cons_of_mem _ found) b (List.mem_cons_of_mem _ other)
      rw [retain]
      cases first : stays start with
      | true =>
          simp only [List.filter_cons_of_pos, first, List.map_cons, List.count_cons] at counted ⊢
          have some := counted face.value.val
          rw [if_pos (beq_self_eq_true _)] at some
          rw [if_pos (some ▸ Nat.succ_pos _), ih later]
          intro value
          by_cases same : value = face.value.val
          · rw [same, Function.update_self, ← some, Nat.add_sub_cancel]
          · rw [Function.update_of_ne same, ← counted value, if_neg (by simpa using Ne.symm same)]
            rfl
      | false =>
          rw [List.filter_cons_of_neg (by simp [first])] at counted ⊢
          have none : wanted face.value.val = 0 := by
            rw [← counted, List.count_eq_zero]
            intro found
            obtain ⟨placed, found, same⟩ := List.mem_map.mp found
            obtain ⟨found, stays⟩ := List.mem_filter.mp found
            have behind : start < placed.2 := List.le_snd_of_mem_zipIdx found
            have kept := earliest (face, start) List.mem_cons_self placed (List.mem_cons_of_mem _ found) behind
              (Whole.ext same.symm) stays
            rw [first] at kept
            cases kept
          rw [if_neg (by omega), ih later counted]

/-- The survivors of a limit that takes something away. -/
structure Selects (limit : Limit) (faces survivors : List Face) : Prop where
  sublist : survivors.Sublist faces
  values : (values survivors).Perm (limit.selection (ascending faces))
  /-- Of faces with equal values the earliest stay. -/
  earliest : ∃ stays : Nat → Bool, survivors = (faces.zipIdx.filter (stays ·.2)).map Prod.fst ∧
    ∀ i j face other, faces[i]? = some face → faces[j]? = some other → i < j → face.value = other.value →
      stays j = true → stays i = true
  /-- Counters of the wanted values find the same faces. -/
  retained : survivors = retain (limit.selection (ascending faces)).count faces
  best : ∀ other : List Face, other.Sublist faces → other.length = survivors.length →
    if limit.favoursHighest then Tail.sum other ≤ Tail.sum survivors else Tail.sum survivors ≤ Tail.sum other

/-- A limit of as many faces as there are, or more, changes nothing. Any other keeps the faces in their order, with
the values at one end of all values, the earliest of equal ones, and no other choice of as many has a better sum. -/
theorem apply_selects (limit : Limit) (faces : List Face) :
    if faces.length ≤ limit.amount then limit.apply faces = faces
    else limit.Selects faces (limit.apply faces) := by
  split
  · rename_i all
    exact if_pos all
  · rename_i more
    have more := Nat.not_le.mp more
    have old : limit.apply faces = (faces.zipIdx.filter (limit.stays faces ·.2)).map Prod.fst := by
      rw [apply_of_lt more, mergeSort_best]
    have valued : (values (limit.apply faces)).Perm ((limit.best faces).map (·.1.value.val)) := by
      rw [apply_of_lt more, values, List.map_map]
      exact (List.mergeSort_perm _ _).map _
    have selected := valued.trans (values_best_perm more)
    refine ⟨?_, selected, ⟨limit.stays faces, old, fun _ _ _ _ => stays_of_earlier⟩, ?_, ?_⟩
    · have sub := (List.filter_sublist (p := (limit.stays faces ·.2)) (l := faces.zipIdx)).map Prod.fst
      rwa [List.zipIdx_map_fst, ← old] at sub
    · rw [old]
      refine (retain_eq_filter ?_ ?_).symm
      · intro a found b other earlier same stays
        exact stays_of_earlier (List.mk_mem_zipIdx_iff_getElem?.mp found) (List.mk_mem_zipIdx_iff_getElem?.mp other)
          earlier same stays
      · intro value
        rw [← selected.count_eq, old, values, List.map_map]
        rfl
    · intro other sub length
      have kept : (limit.apply faces).length = limit.kept faces.length := by
        rw [apply_of_lt more, List.length_map, List.length_mergeSort, length_best limit more]
      have better := sum_best sub (length.trans kept)
      rwa [← valued.sum_eq] at better

end Limit

end Tabletop
