import Tabletop.Proofs.Notation.Soundness
import Tabletop.Proofs.Roll.Denotable

/-!
# What notations denote

Every roll that a notation denotes is regular at each of its nodes. This is kept by every rule of the grammar.
-/

namespace Tabletop.Notation

set_option autoImplicit false

/-- The test of a suffix, if it has one. -/
def Suffix.test? : Suffix → Option Test
  | reroll value => some value.test
  | explosion value => some value.test
  | success test => some test
  | failure test => some test
  | _ => none

theorem announced_nonnegative {tokens : List Token} {test : Test} (announced : Announced tokens test) :
    0 ≤ test.threshold.val := by
  cases announced with
  | bare isNumber => exact number_nonnegative isNumber
  | related _ isNumber => exact number_nonnegative isNumber

theorem group_suffix_nonnegative {tokens : List Token} {suffix : Suffix} (spelled : GroupSuffix tokens suffix) :
    ∀ test, suffix.test? = some test → 0 ≤ test.threshold.val := by
  intro test given
  cases spelled with
  | limit => cases given
  | success _ isNumber =>
      cases given
      exact number_nonnegative isNumber
  | failure _ announced =>
      cases given
      exact announced_nonnegative announced
  | modifier => cases given

theorem dice_suffix_nonnegative {tokens : List Token} {suffix : Suffix} (spelled : DiceSuffix tokens suffix) :
    ∀ test, suffix.test? = some test → 0 ≤ test.threshold.val := by
  cases spelled with
  | reroll _ announced =>
      intro test given
      cases given
      exact announced_nonnegative announced
  | explosion _ announced =>
      intro test given
      cases given
      exact announced_nonnegative announced
  | order =>
      intro test given
      cases given
  | general shared => exact group_suffix_nonnegative shared

theorem suffixes_forall {Item : List Token → Suffix → Prop} {property : Suffix → Prop} {tokens : List Token}
    {suffixes : List Suffix} (spelled : Suffixes Item tokens suffixes)
    (each : ∀ tokens suffix, Item tokens suffix → property suffix) : ∀ suffix ∈ suffixes, property suffix := by
  induction spelled with
  | nil => simp
  | cons first _ ih => exact List.forall_mem_cons.mpr ⟨each _ _ first, ih⟩

theorem last_mem {α : Type} {value? : Suffix → Option α} {suffixes : List Suffix} {value : α}
    (last : Suffix.last? value? suffixes = some value) : ∃ suffix ∈ suffixes, value? suffix = some value :=
  List.mem_filterMap.mp (List.mem_of_getLast? last)

theorem tail_tests_mem {suffixes : List Suffix} {tail : Tail} (value : TailOf suffixes tail) :
    ∀ test ∈ tail.tests, ∃ suffix ∈ suffixes, suffix.test? = some test := by
  intro test member
  rw [Tail.tests, List.mem_append, Option.mem_toList, Option.mem_toList, value.success, value.failure] at member
  rcases member with last | last
  · obtain ⟨suffix, found, given⟩ := last_mem last
    refine ⟨suffix, found, ?_⟩
    cases suffix <;> simp_all [Suffix.success?, Suffix.test?]
  · obtain ⟨suffix, found, given⟩ := last_mem last
    refine ⟨suffix, found, ?_⟩
    cases suffix <;> simp_all [Suffix.failure?, Suffix.test?]

theorem single_tests_mem {multiplier : Whole} {die : Die} {suffixes : List Suffix} {single : Single}
    (value : SingleOf multiplier die suffixes single) :
    ∀ test ∈ single.tests, ∃ suffix ∈ suffixes, suffix.test? = some test := by
  intro test member
  rw [Single.tests, List.mem_append, List.mem_append] at member
  rcases member with (rerolled | exploded) | tested
  · rw [value.rerolls] at rerolled
    obtain ⟨reroll, found, rfl⟩ := List.mem_map.mp rerolled
    obtain ⟨suffix, found, given⟩ := List.mem_filterMap.mp found
    refine ⟨suffix, found, ?_⟩
    cases suffix <;> simp_all [Suffix.reroll?, Suffix.test?]
  · rw [value.exploding, Option.mem_toList] at exploded
    obtain ⟨explosion, last, rfl⟩ := Option.map_eq_some_iff.mp exploded
    obtain ⟨suffix, found, given⟩ := last_mem last
    refine ⟨suffix, found, ?_⟩
    cases suffix <;> simp_all [Suffix.explosion?, Suffix.test?]
  · exact tail_tests_mem value.tail test tested

theorem tail_tests_unsigned {tokens : List Token} {suffixes : List Suffix} {tail : Tail}
    (spelled : Suffixes GroupSuffix tokens suffixes) (value : TailOf suffixes tail) : Unsigned tail.tests := by
  intro test member
  obtain ⟨suffix, found, given⟩ := tail_tests_mem value test member
  exact suffixes_forall spelled (fun _ _ => group_suffix_nonnegative) suffix found test given

theorem nameable_of_is_die {token : Token} {die : Die} (isDie : IsDie token die) : die.Nameable := by
  have code := isDie.code
  generalize token.text.drop 1 = text at code
  cases code with
  | sides _ _ _ small => exact small
  | fate => trivial
  | fateCapital => trivial

theorem single_regular {multiplier : Whole} {tokens : List Token} {single : Single}
    (dice : DiceOf multiplier tokens single) (sized : multiplier.val ≠ -2147483648) :
    single.Regular ∧ single.multiplier = multiplier := by
  cases dice with
  | intro isDie spelled value =>
      refine ⟨⟨?_, ?_, ?_⟩, value.multiplier⟩
      · rw [value.die]
        exact nameable_of_is_die isDie
      · rwa [value.multiplier]
      · intro test member
        obtain ⟨suffix, found, given⟩ := single_tests_mem value test member
        exact suffixes_forall spelled (fun _ _ => dice_suffix_nonnegative) suffix found test given

/-- What every phrase keeps. -/
def Phrase.Regular : Phrase → Prop
  | .roll value => value.Denotable
  | .braced negative group =>
    group.isNegative = negative ∧ group.AllRegular ∧ ∀ previous : Roll, previous.FitsBehind group
  | .commas members => ∀ member ∈ members, member.Denotable
  | .signs previous members => previous.Chained members ∧ ∀ member ∈ members, member.AllRegular

theorem dice_all_regular {multiplier : Whole} {tokens : List Token} {single : Single}
    (dice : DiceOf multiplier tokens single) (sized : multiplier.val ≠ -2147483648) :
    (Roll.single single).AllRegular :=
  Roll.forall_nodes_single.mpr (single_regular dice sized).1

theorem dice_denotable {multiplier : Whole} {tokens : List Token} {single : Single}
    (dice : DiceOf multiplier tokens single) (nonnegative : 0 ≤ multiplier.val) : (Roll.single single).Denotable := by
  have sized : multiplier.val ≠ -2147483648 := by omega
  refine ⟨?_, dice_all_regular dice sized⟩
  rw [Roll.isNegative, (single_regular dice sized).2, Whole.isNegative, decide_eq_false (by omega)]

theorem signed_ne_lowest {negative : Bool} {size value : Whole} (nonnegative : 0 ≤ size.val)
    (same : value.val = signed negative size.val) : value.val ≠ -2147483648 := by
  have high := size.high
  unfold signed at same
  split at same <;> omega

theorem unit_ne_lowest (negative : Bool) : (unit negative).val ≠ -2147483648 := by
  cases negative <;> decide

theorem phrase_regular {phrase : Phrase} {tokens : List Token} (derives : Derives phrase tokens) : phrase.Regular := by
  induction derives with
  | dice dice => exact dice_denotable dice (by decide)
  | countedDice isNumber dice => exact dice_denotable dice (number_nonnegative isNumber)
  | group _ ih => exact ⟨ih.1, ih.2.1⟩
  | joined _ _ _ _ spelled value member members =>
      refine ⟨rfl, Roll.forall_nodes_group.mpr ⟨?_, member.regular, members.2⟩, fun _ => trivial⟩
      exact ⟨⟨member.nonnegative, members.1⟩, tail_tests_unsigned spelled value⟩
  | listed _ _ _ _ spelled value member members =>
      have regular := fun other found => (members other found).regular
      refine ⟨rfl, Roll.forall_nodes_group.mpr ⟨?_, member.regular, regular⟩, fun _ => trivial⟩
      refine ⟨⟨member.nonnegative, ?_⟩, tail_tests_unsigned spelled value⟩
      exact ⟨List.cons_ne_nil _ _, fun other found => (members other found).nonnegative⟩
  | commasNil => exact List.forall_mem_nil _
  | comma _ _ _ ihMember ihMembers => exact List.forall_mem_cons.mpr ⟨ihMember, ihMembers⟩
  | signsNil => exact ⟨trivial, List.forall_mem_nil _⟩
  | @signDice _ _ _ negative previous single others _ dice _ ih =>
      have sized := unit_ne_lowest negative
      have same := (single_regular dice sized).2
      refine ⟨⟨?_, ih.1⟩, List.forall_mem_cons.mpr ⟨dice_all_regular dice sized, ih.2⟩⟩
      -- A bare sign is one of the two multipliers that are not written.
      intro notOne notMinusOne
      cases negative with
      | false => exact absurd same notOne
      | true => exact absurd same notMinusOne
  | signCountedDice _ isNumber value fits dice _ ih =>
      have sized := signed_ne_lowest (number_nonnegative isNumber) value
      refine ⟨⟨?_, ih.1⟩, List.forall_mem_cons.mpr ⟨dice_all_regular dice sized, ih.2⟩⟩
      intro _ _
      rwa [(single_regular dice sized).2]
  | signGroup _ _ _ ihGroup ihMembers =>
      exact ⟨⟨ihGroup.2.2 _, ihMembers.1⟩, List.forall_mem_cons.mpr ⟨ihGroup.2.1, ihMembers.2⟩⟩

/-- What a notation denotes can be denoted. -/
theorem denotable_of_read {cs : List Char} {roll : Roll} (denotes : read cs = .ok roll) : roll.Denotable :=
  phrase_regular (read_eq_ok_iff_derives.mp denotes)

end Tabletop.Notation
