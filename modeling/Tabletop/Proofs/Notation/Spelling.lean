import Mathlib.Data.List.Basic
import Tabletop.Proofs.Notation.Lexing
import Tabletop.Proofs.Notation.Suffixes
import Tabletop.Proofs.Roll.Denotable

/-!
# Suffixes from their texts

The canonical notation of a roll spells one list of suffixes. The list has the value of the roll, and every suffix on it
is lexed from its text. The text `s` of an order is the one that a letter behind it can change, so it stands last but
for the modifier.
-/

namespace Tabletop

set_option autoImplicit false

open Notation

namespace Tail

/-- The modifier, where there is one to write. -/
def shift? (tail : Tail) : Option Whole := if tail.modifier = .zero then none else some tail.modifier

/-- The suffixes that choose and count faces. -/
def selection (tail : Tail) : List Suffix :=
  tail.limit.toList.map .limit ++ tail.success.toList.map .success ++ tail.failure.toList.map .failure

def shift (tail : Tail) : List Suffix := tail.shift?.toList.map .modifier

def suffixes (tail : Tail) : List Suffix := tail.selection ++ tail.shift

/-- The suffixes with any addends in the place of the modifier. -/
def suffixesWith (tail : Tail) (addends : List Whole) : List Suffix := tail.selection ++ addends.map .modifier

end Tail

namespace Order

def given? : Order → Option Order
  | unsorted => none
  | order => some order

def suffixes (order : Order) : List Suffix := order.given?.toList.map .order

end Order

namespace Single

def selection (single : Single) : List Suffix :=
  single.rerolls.map .reroll ++ single.exploding.toList.map .explosion ++ single.tail.selection

def suffixes (single : Single) : List Suffix := single.selection ++ single.order.suffixes ++ single.tail.shift

def suffixesWith (single : Single) (addends : List Whole) : List Suffix :=
  single.selection ++ single.order.suffixes ++ addends.map .modifier

end Single

theorem get_last_to_list {α : Type} (value : Option α) : value.toList.getLast? = value := by
  cases value <;> rfl

/-- The addends come to the modifier, and on the way to it they stay in range. -/
structure AddUp (addends : List Whole) (modifier : Whole) : Prop where
  running : Running 0 (addends.map Whole.val)
  sum : modifier.val = (addends.map Whole.val).sum

theorem running_of_in_range {addend : Int} (range : Whole.InRange addend) : Running 0 [addend] := by
  rw [← Int.zero_add addend] at range
  exact running_cons.mpr ⟨by decide, running_nil.mpr range⟩

theorem one_adds_up (modifier : Whole) : AddUp [modifier] modifier :=
  ⟨running_of_in_range ⟨modifier.low, modifier.high⟩, List.sum_singleton.symm⟩

theorem shift_adds_up (tail : Tail) : AddUp tail.shift?.toList tail.modifier := by
  unfold Tail.shift?
  split
  · exact ⟨running_nil.mpr (by decide), congrArg Whole.val ‹_›⟩
  · exact one_adds_up tail.modifier

section

variable {α : Type} (value? : Suffix → Option α)

theorem filter_map_tail_suffixes (tail : Tail) (addends : List Whole) :
    (tail.suffixesWith addends).filterMap value? =
      tail.limit.toList.filterMap (value? <| .limit ·) ++ tail.success.toList.filterMap (value? <| .success ·) ++
        tail.failure.toList.filterMap (value? <| .failure ·) ++ addends.filterMap (value? <| .modifier ·) := by
  simp only [Tail.suffixesWith, Tail.selection, List.filterMap_append, List.filterMap_map]
  rfl

theorem filter_map_single_suffixes (single : Single) (addends : List Whole) :
    (single.suffixesWith addends).filterMap value? =
      single.rerolls.filterMap (value? <| .reroll ·) ++ single.exploding.toList.filterMap (value? <| .explosion ·) ++
        (single.tail.limit.toList.filterMap (value? <| .limit ·) ++
          single.tail.success.toList.filterMap (value? <| .success ·) ++
          single.tail.failure.toList.filterMap (value? <| .failure ·)) ++
        single.order.given?.toList.filterMap (value? <| .order ·) ++ addends.filterMap (value? <| .modifier ·) := by
  simp only [Single.suffixesWith, Single.selection, Order.suffixes, Tail.selection, List.filterMap_append,
    List.filterMap_map]
  rfl

end

/-- Suffixes that give no other value twice have the value of the tail that holds what they give. -/
theorem tail_of_given {suffixes : List Suffix} {tail : Tail} {addends : List Whole}
    (addUp : AddUp addends tail.modifier) (modifiers : suffixes.filterMap Suffix.modifier? = addends.map Whole.val)
    (limits : suffixes.filterMap Suffix.limit? = tail.limit.toList)
    (successes : suffixes.filterMap Suffix.success? = tail.success.toList)
    (failures : suffixes.filterMap Suffix.failure? = tail.failure.toList) : TailOf suffixes tail := by
  constructor
  · rw [modifiers]
    exact addUp.running
  · rw [modifiers]
    exact addUp.sum
  · rw [Suffix.last?, limits, get_last_to_list]
  · rw [Suffix.last?, successes, get_last_to_list]
  · rw [Suffix.last?, failures, get_last_to_list]

theorem tail_of_addends {tail : Tail} {addends : List Whole} (addUp : AddUp addends tail.modifier) :
    TailOf (tail.suffixesWith addends) tail := by
  apply tail_of_given addUp
  · simp [filter_map_tail_suffixes, Suffix.modifier?]
  · simp [filter_map_tail_suffixes, Suffix.limit?]
  · simp [filter_map_tail_suffixes, Suffix.success?]
  · simp [filter_map_tail_suffixes, Suffix.failure?]

theorem single_of_addends {single : Single} {addends : List Whole} (addUp : AddUp addends single.tail.modifier) :
    SingleOf single.multiplier single.die (single.suffixesWith addends) single := by
  refine ⟨rfl, rfl, ?_, ?_, ?_, tail_of_given addUp ?_ ?_ ?_ ?_⟩
  · simp [filter_map_single_suffixes, Suffix.reroll?]
  · simp [Suffix.last?, filter_map_single_suffixes, get_last_to_list, Suffix.explosion?]
  · simp only [Suffix.last?, filter_map_single_suffixes, List.filterMap_none, Suffix.order?]
    cases single.order <;> simp [Order.given?]
  · simp [filter_map_single_suffixes, Suffix.modifier?]
  · simp [filter_map_single_suffixes, Suffix.limit?]
  · simp [filter_map_single_suffixes, Suffix.success?]
  · simp [filter_map_single_suffixes, Suffix.failure?]

theorem tail_of_suffixes (tail : Tail) : TailOf tail.suffixes tail := tail_of_addends (shift_adds_up tail)

theorem single_of_suffixes (single : Single) : SingleOf single.multiplier single.die single.suffixes single :=
  single_of_addends (shift_adds_up single.tail)

namespace Notation

def Suffix.text : Suffix → List Char
  | reroll value => value.text
  | explosion value => value.text
  | order value => value.text
  | limit value => value.text
  | success test => test.text
  | failure test => 'f' :: test.announcedText
  | modifier value => value.signedText

def spell (suffixes : List Suffix) : List Char := suffixes.flatMap Suffix.text

theorem spell_append (before after : List Suffix) : spell (before ++ after) = spell before ++ spell after :=
  List.flatMap_append

end Notation

theorem spell_selection (tail : Tail) : spell tail.selection = tail.selectionText := by
  obtain ⟨_, limit, success, failure⟩ := tail
  cases limit <;> cases success <;> cases failure <;>
    simp [spell, Tail.selection, Tail.selectionText, Suffix.text]

theorem spell_shift (tail : Tail) : spell tail.shift = tail.modifierText := by
  unfold Tail.shift Tail.shift? Tail.modifierText
  split
  · rfl
  · exact List.append_nil _

theorem spell_order (order : Order) : spell order.suffixes = order.text := by
  cases order <;> rfl

theorem spell_single (single : Single) :
    single.canonical = Single.multiplierText single.multiplier ++ (single.die.name ++ spell single.suffixes) := by
  have rerolls : spell (single.rerolls.map .reroll) = single.rerolls.flatMap Reroll.text := List.flatMap_map _ _ _
  have exploded : single.canonical =
      Single.multiplierText single.multiplier ++ single.die.name ++ single.rerolls.flatMap Reroll.text ++
        spell (single.exploding.toList.map .explosion) ++ single.tail.selectionText ++ single.order.text ++
        single.tail.modifierText := by
    obtain ⟨multiplier, die, rerolls, exploding, order, tail⟩ := single
    cases exploding with
    | none => rfl
    | some explosion => simp [Single.canonical, spell, Suffix.text]
  rw [exploded]
  simp only [Single.suffixes, Single.selection, spell_append, rerolls, spell_selection, spell_order, spell_shift,
    List.append_assoc]

namespace Notation

/-- What follows a roll: nothing, a joint or the brace of the group around it. -/
def Closes (rest : List Char) : Prop := ∀ c ∈ rest.head?, c ∈ ['+', '-', ',', '\x7d']

theorem stops_of_closes {rest : List Char} (closes : Closes rest) : Stops rest := by
  intro c found
  have mark := closes c found
  simp only [List.mem_cons, List.not_mem_nil, or_false] at mark
  rcases mark with rfl | rfl | rfl | rfl <;> rfl

theorem unmarked_of_closes {rest : List Char} (closes : Closes rest) : Unmarked rest := by
  intro c found
  have mark := closes c found
  simp only [List.mem_cons, List.not_mem_nil, or_false] at mark
  rcases mark with rfl | rfl | rfl | rfl <;> decide

theorem suffixes_append {Item : List Token → Suffix → Prop} {tokens more : List Token} {before after : List Suffix}
    (left : Suffixes Item tokens before) (right : Suffixes Item more after) :
    Suffixes Item (tokens ++ more) (before ++ after) := by
  induction left with
  | nil => exact right
  | cons first _ ih =>
      rw [List.append_assoc]
      exact .cons first ih

theorem suffixes_one {Item : List Token → Suffix → Prop} {tokens : List Token} {suffix : Suffix}
    (item : Item tokens suffix) : Suffixes Item tokens [suffix] := by
  have one := Suffixes.cons item .nil
  rwa [List.append_nil] at one

section

variable {rest : List Char}

theorem writes_number {size : Whole} {n : Nat} (same : size.val = n) (stops : Stops rest) :
    Writes (Decimal.digits n) rest (fun tokens => ∃ number, tokens = [number] ∧ IsNumber number size) := by
  refine writes_digits stops fun span => ⟨_, rfl, rfl, ?_⟩
  rw [Decimal.value_digits]
  exact same

theorem text_of_nonnegative {value : Whole} (nonnegative : 0 ≤ value.val) :
    ∃ n : Nat, value.val = n ∧ value.text = Decimal.digits n :=
  ⟨value.val.natAbs, (Int.natAbs_of_nonneg nonnegative).symm, if_neg (Int.not_lt.mpr nonnegative)⟩

/-- The sign before a member or a modifier. -/
def signMark (negative : Bool) : Char := if negative then '-' else '+'

theorem classify_sign (negative : Bool) (rest : List Char) :
    classify (signMark negative) rest = (signKind negative, 0) := by
  cases negative <;> rfl

/-- A relation and its threshold behind it. -/
theorem writes_test {test : Test} (unsigned : 0 ≤ test.threshold.val) (stops : Stops rest) :
    Writes test.text rest (fun tokens => ∃ sign number, tokens = [sign, number] ∧ sign.kind = .compare test.relation ∧
      IsNumber number test.threshold) := by
  obtain ⟨n, same, written⟩ := text_of_nonnegative unsigned
  rw [Test.text, written]
  refine writes_cons [] (classify_relation _ _) (writes_number same stops) ?_
  intro sign tokens kind given
  obtain ⟨number, alone, isNumber⟩ := given
  exact ⟨sign, number, congrArg _ alone, kind, isNumber⟩

/-- Only an equality is written as its bare threshold. -/
theorem announced_text_cases (test : Test) :
    test.relation = .equal ∧ test.announcedText = test.threshold.text ∨ test.announcedText = test.text := by
  obtain ⟨relation, threshold⟩ := test
  cases relation with
  | equal => exact .inl ⟨rfl, rfl⟩
  | greater => exact .inr rfl
  | less => exact .inr rfl

theorem writes_announced {test : Test} (unsigned : 0 ≤ test.threshold.val) (stops : Stops rest) :
    Writes test.announcedText rest (Announced · test) := by
  rcases announced_text_cases test with ⟨equal, bare⟩ | related
  · obtain ⟨n, same, written⟩ := text_of_nonnegative unsigned
    rw [bare, written]
    refine writes_mono (writes_number same stops) ?_
    intro tokens given
    obtain ⟨number, alone, isNumber⟩ := given
    obtain ⟨relation, threshold⟩ := test
    cases equal
    exact alone ▸ .bare isNumber
  · rw [related]
    refine writes_mono (writes_test unsigned stops) ?_
    intro tokens given
    obtain ⟨sign, number, pair, kind, isNumber⟩ := given
    exact pair ▸ .related kind isNumber

theorem unmarked_cons {c : Char} (unmarked : c.isAlpha = false ∧ c ≠ '!') (rest : List Char) :
    Unmarked (c :: rest) := by
  intro head found
  cases found
  exact unmarked

theorem unmarked_announced {test : Test} (unsigned : 0 ≤ test.threshold.val) (rest : List Char) :
    Unmarked (test.announcedText ++ rest) := by
  rcases announced_text_cases test with ⟨_, bare⟩ | related
  · obtain ⟨n, _, written⟩ := text_of_nonnegative unsigned
    obtain ⟨d, ds, shape, digit, _⟩ := digits_cons n
    rw [bare, written, shape]
    refine unmarked_cons ⟨digit_not_alpha digit, ?_⟩ _
    intro same
    subst same
    cases digit
  · rw [related]
    refine unmarked_cons ?_ _
    cases test.relation <;> decide

theorem writes_limit (limit : Limit) (stops : Stops rest) : Writes limit.text rest (GroupSuffix · (.limit limit)) := by
  obtain ⟨c, c', mark, run⟩ := classify_limit limit.kind (Decimal.digits limit.amount ++ rest)
  rw [digit_run_append (fun _ => Decimal.isDigit_of_mem_digits) stops] at run
  rw [Limit.text, mark]
  refine writes_token run fun span => .limit ⟨rfl, ?_⟩
  change limit.amount = if Decimal.digits limit.amount = [] then 1 else Decimal.value (Decimal.digits limit.amount)
  rw [if_neg (Decimal.digits_ne_nil _), Decimal.value_digits]

theorem signed_text_eq (value : Whole) :
    value.signedText = signMark value.isNegative :: Decimal.digits value.val.natAbs := by
  unfold Whole.signedText signMark Whole.isNegative
  simp only [decide_eq_true_eq]

theorem eq_signed_size (value : Whole) : value.val = signed value.isNegative value.val.natAbs := by
  simp only [signed, Whole.isNegative, decide_eq_true_eq]
  split <;> omega

/-- The size of a whole number is one as well, but for the lowest. -/
theorem size_of_ne_lowest {value : Whole} (modest : value.val ≠ -2147483648) :
    ∃ size : Whole, size.val = value.val.natAbs ∧ value.val = signed value.isNegative size.val := by
  have low := value.low
  have high := value.high
  exact ⟨⟨value.val.natAbs, by omega, by omega⟩, rfl, eq_signed_size value⟩

theorem writes_modifier {value : Whole} (modest : value.val ≠ -2147483648) (stops : Stops rest) :
    Writes value.signedText rest (GroupSuffix · (.modifier value)) := by
  obtain ⟨size, same, value_eq⟩ := size_of_ne_lowest modest
  rw [signed_text_eq]
  refine writes_cons [] (classify_sign _ _) (writes_number same stops) ?_
  intro sign tokens kind given
  obtain ⟨number, alone, isNumber⟩ := given
  exact alone ▸ .modifier kind isNumber value_eq

theorem writes_reroll {reroll : Reroll} (unsigned : 0 ≤ reroll.test.threshold.val) (stops : Stops rest) :
    Writes reroll.text rest (DiceSuffix · (.reroll reroll)) := by
  have announced := writes_announced unsigned stops
  obtain ⟨test, once⟩ := reroll
  cases once with
  | false =>
      refine writes_cons [] (classify_reroll (unmarked_announced unsigned rest)) announced ?_
      intro letter tokens kind given
      exact .reroll kind given
  | true =>
      refine writes_cons ['o'] rfl announced ?_
      intro letter tokens kind given
      exact .reroll kind given

theorem writes_explosion {explosion : Explosion} (unsigned : 0 ≤ explosion.test.threshold.val) (stops : Stops rest) :
    Writes explosion.text rest (DiceSuffix · (.explosion explosion)) := by
  obtain ⟨c, text, mark, run⟩ := classify_explosion explosion.kind (unmarked_announced unsigned rest)
  rw [Explosion.text, mark]
  refine writes_cons text run (writes_announced unsigned stops) ?_
  intro letter tokens kind given
  exact .explosion kind given

theorem writes_order (order : Order) (unmarked : Unmarked rest) :
    Writes order.text rest (Suffixes DiceSuffix · order.suffixes) := by
  cases order with
  | unsorted => exact writes_nil .nil
  | ascending => exact writes_token (classify_ascending unmarked) fun _ => suffixes_one (.order rfl)
  | descending => exact writes_token rfl fun _ => suffixes_one (.order rfl)

/-- What is spelled whatever letter follows. An order is not. -/
def Settled : Suffix → Prop
  | .reroll value => 0 ≤ value.test.threshold.val
  | .explosion value => 0 ≤ value.test.threshold.val
  | .order _ => False
  | .limit _ => True
  | .success test => 0 ≤ test.threshold.val
  | .failure test => 0 ≤ test.threshold.val
  | .modifier value => value.val ≠ -2147483648

theorem stops_suffix {suffix : Suffix} (settled : Settled suffix) (rest : List Char) : Stops (suffix.text ++ rest) := by
  cases suffix with
  | reroll value =>
      obtain ⟨test, once⟩ := value
      cases once <;> exact stops_cons rfl
  | explosion value =>
      obtain ⟨kind, test⟩ := value
      cases kind <;> exact stops_cons rfl
  | order => exact settled.elim
  | limit value =>
      obtain ⟨kind, amount, small⟩ := value
      cases kind <;> exact stops_cons rfl
  | success test =>
      obtain ⟨relation, threshold⟩ := test
      cases relation <;> exact stops_cons rfl
  | failure test => exact stops_cons rfl
  | modifier value =>
      rw [Suffix.text, signed_text_eq]
      cases value.isNegative <;> exact stops_cons rfl

theorem writes_group_suffix {suffix : Suffix} (settled : Settled suffix)
    (shared : suffix.reroll? = none ∧ suffix.explosion? = none) (stops : Stops rest) :
    Writes suffix.text rest (GroupSuffix · suffix) := by
  cases suffix with
  | reroll => cases shared.1
  | explosion => cases shared.2
  | order => exact settled.elim
  | limit value => exact writes_limit value stops
  | success test =>
      refine writes_mono (writes_test settled stops) ?_
      intro tokens given
      obtain ⟨sign, number, pair, kind, isNumber⟩ := given
      exact pair ▸ .success kind isNumber
  | failure test =>
      refine writes_cons [] rfl (writes_announced settled stops) ?_
      intro letter tokens kind given
      exact .failure kind given
  | modifier value => exact writes_modifier settled stops

theorem writes_dice_suffix {suffix : Suffix} (settled : Settled suffix) (stops : Stops rest) :
    Writes suffix.text rest (DiceSuffix · suffix) := by
  have general (shared : suffix.reroll? = none ∧ suffix.explosion? = none) :=
    writes_mono (writes_group_suffix settled shared stops) fun _ given => DiceSuffix.general given
  cases suffix with
  | reroll value => exact writes_reroll settled stops
  | explosion value => exact writes_explosion settled stops
  | order => exact settled.elim
  | limit => exact general ⟨rfl, rfl⟩
  | success => exact general ⟨rfl, rfl⟩
  | failure => exact general ⟨rfl, rfl⟩
  | modifier => exact general ⟨rfl, rfl⟩

theorem stops_spell {suffixes : List Suffix} (settled : ∀ suffix ∈ suffixes, Settled suffix) (stops : Stops rest) :
    Stops (spell suffixes ++ rest) := by
  cases suffixes with
  | nil => exact stops
  | cons suffix suffixes =>
      rw [spell, List.flatMap_cons, List.append_assoc]
      exact stops_suffix (settled suffix List.mem_cons_self) _

theorem writes_spell {Item : List Token → Suffix → Prop} {suffixes : List Suffix}
    (each : ∀ suffix ∈ suffixes, ∀ rest, Stops rest → Writes suffix.text rest (Item · suffix))
    (settled : ∀ suffix ∈ suffixes, Settled suffix) (stops : Stops rest) :
    Writes (spell suffixes) rest (Suffixes Item · suffixes) := by
  induction suffixes with
  | nil => exact writes_nil .nil
  | cons suffix suffixes ih =>
      obtain ⟨ofFirst, ofOthers⟩ := List.forall_mem_cons.mp each
      obtain ⟨_, settled⟩ := List.forall_mem_cons.mp settled
      exact writes_append (ofFirst _ (stops_spell settled stops)) (ih ofOthers settled) fun _ _ => .cons

theorem writes_suffixes_append {Item : List Token → Suffix → Prop} {text more : List Char} {before after : List Suffix}
    (left : Writes text (more ++ rest) (Suffixes Item · before)) (right : Writes more rest (Suffixes Item · after)) :
    Writes (text ++ more) rest (Suffixes Item · (before ++ after)) :=
  writes_append left right fun _ _ => suffixes_append

theorem settled_selection {tail : Tail} (unsigned : Unsigned tail.tests) :
    ∀ suffix ∈ tail.selection, Settled suffix := by
  obtain ⟨_, limit, success, failure⟩ := tail
  intro suffix found
  simp only [Unsigned, Tail.tests, List.mem_append, Option.mem_toList] at unsigned
  simp only [Tail.selection, List.mem_append, List.mem_map, Option.mem_toList] at found
  rcases found with (⟨value, _, rfl⟩ | ⟨test, given, rfl⟩) | ⟨test, given, rfl⟩
  · trivial
  · exact unsigned test (.inl given)
  · exact unsigned test (.inr given)

theorem settled_shift {tail : Tail} (modest : tail.modifier.val ≠ -2147483648) :
    ∀ suffix ∈ tail.shift, Settled suffix := by
  intro suffix found
  obtain ⟨value, given, rfl⟩ := List.mem_map.mp found
  rw [Option.mem_toList, Tail.shift?] at given
  split at given
  · cases given
  · cases given
    exact modest

theorem settled_single {single : Single} (unsigned : Unsigned single.tests) :
    ∀ suffix ∈ single.selection, Settled suffix := by
  intro suffix found
  rw [Single.selection, List.mem_append, List.mem_append] at found
  rcases found with (rerolled | exploding) | chosen
  · obtain ⟨reroll, given, rfl⟩ := List.mem_map.mp rerolled
    exact unsigned _ (List.mem_append_left _ (List.mem_append_left _ (List.mem_map_of_mem given)))
  · obtain ⟨explosion, given, rfl⟩ := List.mem_map.mp exploding
    have mapped : explosion.test ∈ (single.exploding.map (·.test)).toList := by
      rw [Option.mem_toList] at given ⊢
      rw [given]
      rfl
    exact unsigned _ (List.mem_append_left _ (List.mem_append_right _ mapped))
  · exact settled_selection (fun test given => unsigned test (List.mem_append_right _ given)) suffix chosen

/-- Nothing in a tail is for dice alone. -/
theorem shared_tail {tail : Tail} {addends : List Whole} :
    ∀ suffix ∈ tail.suffixesWith addends, suffix.reroll? = none ∧ suffix.explosion? = none := by
  intro suffix found
  simp only [Tail.suffixesWith, Tail.selection, List.mem_append, List.mem_map] at found
  rcases found with ((⟨_, _, rfl⟩ | ⟨_, _, rfl⟩) | ⟨_, _, rfl⟩) | ⟨_, _, rfl⟩ <;> exact ⟨rfl, rfl⟩

theorem writes_tail {tail : Tail} (unsigned : Unsigned tail.tests) (modest : tail.modifier.val ≠ -2147483648)
    (stops : Stops rest) : Writes (spell tail.suffixes) rest (Suffixes GroupSuffix · tail.suffixes) := by
  have settled : ∀ suffix ∈ tail.suffixes, Settled suffix :=
    List.forall_mem_append.mpr ⟨settled_selection unsigned, settled_shift modest⟩
  refine writes_spell ?_ settled stops
  intro suffix found rest stops
  exact writes_group_suffix (settled suffix found) (shared_tail suffix found) stops

theorem closes_nil : Closes [] := by
  intro c found
  cases found

theorem closes_cons {c : Char} (mark : c ∈ ['+', '-', ',', '\x7d']) (rest : List Char) : Closes (c :: rest) := by
  intro head found
  cases found
  exact mark

theorem closes_sign (negative : Bool) (rest : List Char) : Closes (signMark negative :: rest) :=
  closes_cons (by cases negative <;> decide) rest

theorem closes_shift (tail : Tail) (closes : Closes rest) : Closes (spell tail.shift ++ rest) := by
  unfold Tail.shift
  cases tail.shift? with
  | none => exact closes
  | some value =>
      change Closes (value.signedText ++ [] ++ rest)
      rw [signed_text_eq]
      exact closes_sign _ _

theorem stops_order (order : Order) (stops : Stops rest) : Stops (order.text ++ rest) := by
  cases order with
  | unsorted => exact stops
  | ascending => exact stops_cons rfl
  | descending => exact stops_cons rfl

theorem writes_die {die : Die} (nameable : die.Nameable) (stops : Stops rest) :
    Writes die.name rest (fun tokens => ∃ token, tokens = [token] ∧ IsDie token die) := by
  cases die with
  | standard sides =>
      refine writes_sides stops fun span => ⟨_, rfl, rfl, .sides (Decimal.digits_ne_nil _) ?_ ?_ nameable⟩
      · exact List.all_eq_true.mpr fun _ => Decimal.isDigit_of_mem_digits
      · exact (Decimal.value_digits _).symm
  | fate => exact writes_token rfl fun _ => ⟨_, rfl, rfl, .fateCapital⟩

theorem spell_single_suffixes (single : Single) :
    spell single.suffixes = spell single.selection ++ (single.order.text ++ spell single.tail.shift) := by
  rw [Single.suffixes, spell_append, spell_append, spell_order, List.append_assoc]

theorem stops_single_suffixes {single : Single} (unsigned : Unsigned single.tests) (closes : Closes rest) :
    Stops (spell single.suffixes ++ rest) := by
  have behind := stops_order single.order (stops_of_closes (closes_shift single.tail closes))
  rw [spell_single_suffixes, List.append_assoc, List.append_assoc]
  exact stops_spell (settled_single unsigned) behind

theorem writes_single_suffixes {single : Single} (unsigned : Unsigned single.tests)
    (modest : single.tail.modifier.val ≠ -2147483648) (closes : Closes rest) :
    Writes (spell single.suffixes) rest (Suffixes DiceSuffix · single.suffixes) := by
  have selected := settled_single unsigned
  have shifted := settled_shift modest
  have behind := closes_shift single.tail closes
  rw [spell_single_suffixes, Single.suffixes, List.append_assoc]
  refine writes_suffixes_append ?_ (writes_suffixes_append ?_ ?_)
  · refine writes_spell (fun suffix found _ => writes_dice_suffix (selected suffix found)) selected ?_
    rw [List.append_assoc]
    exact stops_order single.order (stops_of_closes behind)
  · exact writes_order single.order (unmarked_of_closes behind)
  · exact writes_spell (fun suffix found _ => writes_dice_suffix (shifted suffix found)) shifted
      (stops_of_closes closes)

/-- The die and its suffixes, whatever multiplier stands before them. -/
theorem writes_dice {single : Single} (regular : single.Regular) (modest : single.tail.modifier.val ≠ -2147483648)
    (closes : Closes rest) :
    Writes (single.die.name ++ spell single.suffixes) rest (DiceOf single.multiplier · single) := by
  refine writes_append (writes_die regular.die (stops_single_suffixes regular.tests closes))
    (writes_single_suffixes regular.tests modest closes) ?_
  intro left right ofDie spelled
  obtain ⟨token, alone, isDie⟩ := ofDie
  rw [alone]
  exact .intro isDie spelled (single_of_suffixes single)

end

end Notation

end Tabletop
