import Tabletop.Proofs.Notation.Rendering
import Tabletop.Proofs.Notation.Spacing

/-!
# A notation for every roll that has one

What a notation can denote is denoted by one that keeps its tokens apart with spaces. There each token may be chosen for
itself, and a modifier may be written as several numbers. The lowest modifier is written as two: its own number would be
too large to be read.
-/

namespace Tabletop

set_option autoImplicit false

open Notation

/-- Numbers that can be written and come to the modifier. -/
def Whole.addends (modifier : Whole) : List Whole :=
  if modifier.val = -2147483648 then [⟨-2147483647, by decide, by decide⟩, .minusOne] else [modifier]

theorem addends_add_up (modifier : Whole) : AddUp modifier.addends modifier := by
  unfold Whole.addends
  split
  · have sum : (-2147483648 : Int) = [-2147483647, -1].sum := by decide
    refine ⟨?_, by rw [‹modifier.val = _›]; exact sum⟩
    exact running_cons.mpr ⟨by decide, running_cons.mpr ⟨by decide, running_nil.mpr (by decide)⟩⟩
  · exact one_adds_up modifier

theorem addends_ne_lowest (modifier : Whole) : ∀ addend ∈ modifier.addends, addend.val ≠ -2147483648 := by
  unfold Whole.addends
  split
  · decide
  · exact (List.forall_mem_singleton).mpr ‹_›

namespace Notation

/-- Some text is read as tokens with the property, wherever it stands. -/
def Spelled (property : List Token → Prop) : Prop := ∃ text, ∀ start, property (wordsFrom start text)

section

variable {first second property : List Token → Prop}

theorem spelled_nil (holds : property []) : Spelled property := by
  refine ⟨[], fun start => ?_⟩
  rwa [words_nil]

theorem spelled_mono (spelled : Spelled first) (weaken : ∀ tokens, first tokens → property tokens) :
    Spelled property := by
  obtain ⟨text, holds⟩ := spelled
  exact ⟨text, fun start => weaken _ (holds start)⟩

/-- A space between two texts keeps them apart. -/
theorem spelled_append (left : Spelled first) (right : Spelled second)
    (join : ∀ left right, first left → second right → property (left ++ right)) : Spelled property := by
  obtain ⟨text, ofText⟩ := left
  obtain ⟨more, ofMore⟩ := right
  refine ⟨text ++ ' ' :: more, fun start => ?_⟩
  obtain ⟨stop, split⟩ := words_before_space (rfl : isSpace ' ' = true) start text more
  rw [split]
  exact join _ _ (ofText start) (ofMore stop)

/-- No token is white space. -/
def Solid (tokens : List Token) : Prop := ∀ token ∈ tokens, token.kind ≠ .space

theorem spelled_of_writes {text : List Char} (writes : Writes text [] property)
    (solid : ∀ tokens, property tokens → Solid tokens) : Spelled property := by
  refine ⟨text, fun start => ?_⟩
  obtain ⟨written, stop, lexed, holds⟩ := writes start
  rw [List.append_nil, tokensFrom, List.append_nil] at lexed
  have kept : written.filter (!·.isSpace) = written := by
    rw [List.filter_eq_self]
    intro token found
    rw [Token.isSpace, decide_eq_false (solid written holds token found), Bool.not_false]
  rwa [wordsFrom, lexed, kept]

end

theorem solid_singleton {token : Token} {kind : Kind} (same : token.kind = kind) (solid : kind ≠ .space) :
    Solid [token] :=
  List.forall_mem_singleton.mpr (same ▸ solid)

theorem spelled_mark {c : Char} {kind : Kind} (run : classify c [] = (kind, 0)) (solid : kind ≠ .space) :
    Spelled (fun tokens => ∃ token, tokens = [token] ∧ token.kind = kind) := by
  have writes : Writes [c] [] (fun tokens => ∃ token, tokens = [token] ∧ token.kind = kind) :=
    writes_token run fun _ => ⟨_, rfl, rfl⟩
  refine spelled_of_writes writes ?_
  intro tokens given
  obtain ⟨token, rfl, same⟩ := given
  exact solid_singleton same solid

/-- A mark and what is written behind it. -/
theorem spelled_cons {c : Char} {kind : Kind} {second property : List Token → Prop} (run : classify c [] = (kind, 0))
    (solid : kind ≠ .space) (behind : Spelled second)
    (join : ∀ token tokens, token.kind = kind → second tokens → property (token :: tokens)) : Spelled property := by
  refine spelled_append (spelled_mark run solid) behind ?_
  intro left right ofLeft ofRight
  obtain ⟨token, rfl, same⟩ := ofLeft
  exact join token right same ofRight

theorem spelled_sign {second property : List Token → Prop} (negative : Bool) (behind : Spelled second)
    (join : ∀ token tokens, token.kind = signKind negative → second tokens → property (token :: tokens)) :
    Spelled property :=
  spelled_cons (classify_sign negative []) (by cases negative <;> decide) behind join

theorem stops_nil : Stops [] := stops_of_closes closes_nil

theorem spelled_number {size : Whole} {n : Nat} (same : size.val = n) :
    Spelled (fun tokens => ∃ number, tokens = [number] ∧ IsNumber number size) := by
  refine spelled_of_writes (writes_number same stops_nil) ?_
  intro tokens given
  obtain ⟨number, rfl, isNumber⟩ := given
  exact solid_singleton isNumber.kind (by decide)

theorem spelled_die {die : Die} (nameable : die.Nameable) :
    Spelled (fun tokens => ∃ token, tokens = [token] ∧ IsDie token die) := by
  refine spelled_of_writes (writes_die nameable stops_nil) ?_
  intro tokens given
  obtain ⟨token, rfl, isDie⟩ := given
  exact solid_singleton isDie.kind (by decide)

theorem solid_cons {token : Token} {kind : Kind} {tokens : List Token} (same : token.kind = kind)
    (solid : kind ≠ .space) (others : Solid tokens) : Solid (token :: tokens) :=
  List.forall_mem_cons.mpr ⟨same ▸ solid, others⟩

theorem solid_number {token : Token} {value : Whole} (isNumber : IsNumber token value) : Solid [token] :=
  solid_singleton isNumber.kind (by decide)

theorem solid_announced {tokens : List Token} {test : Test} (announced : Announced tokens test) : Solid tokens := by
  cases announced with
  | bare isNumber => exact solid_number isNumber
  | related kind isNumber => exact solid_cons kind (by simp) (solid_number isNumber)

theorem solid_group_suffix {tokens : List Token} {suffix : Suffix} (spelled : GroupSuffix tokens suffix) :
    Solid tokens := by
  cases spelled with
  | limit isLimit => exact solid_singleton isLimit.kind (by simp)
  | success kind isNumber => exact solid_cons kind (by simp) (solid_number isNumber)
  | failure kind announced => exact solid_cons kind (by simp) (solid_announced announced)
  | @modifier _ _ negative _ _ kind isNumber =>
      exact solid_cons kind (by cases negative <;> decide) (solid_number isNumber)

theorem solid_dice_suffix {tokens : List Token} {suffix : Suffix} (spelled : DiceSuffix tokens suffix) :
    Solid tokens := by
  cases spelled with
  | reroll kind announced => exact solid_cons kind (by simp) (solid_announced announced)
  | explosion kind announced => exact solid_cons kind (by simp) (solid_announced announced)
  | order kind => exact solid_singleton kind (by simp)
  | general shared => exact solid_group_suffix shared

theorem spelled_suffixes {Item : List Token → Suffix → Prop} {suffixes : List Suffix}
    (each : ∀ suffix ∈ suffixes, Spelled (Item · suffix)) : Spelled (Suffixes Item · suffixes) := by
  induction suffixes with
  | nil => exact spelled_nil .nil
  | cons suffix suffixes ih =>
      obtain ⟨ofFirst, ofOthers⟩ := List.forall_mem_cons.mp each
      exact spelled_append ofFirst (ih ofOthers) fun _ _ => .cons

theorem settled_addends (modifier : Whole) : ∀ suffix ∈ modifier.addends.map Suffix.modifier, Settled suffix :=
  List.forall_mem_map.mpr (addends_ne_lowest modifier)

theorem spelled_tail {tail : Tail} (unsigned : Unsigned tail.tests) :
    Spelled (Suffixes GroupSuffix · (tail.suffixesWith tail.modifier.addends)) := by
  have settled : ∀ suffix ∈ tail.suffixesWith tail.modifier.addends, Settled suffix :=
    List.forall_mem_append.mpr ⟨settled_selection unsigned, settled_addends tail.modifier⟩
  refine spelled_suffixes fun suffix found => ?_
  exact spelled_of_writes (writes_group_suffix (settled suffix found) (shared_tail suffix found) stops_nil)
    fun _ => solid_group_suffix

theorem spelled_suffixes_append {Item : List Token → Suffix → Prop} {before after : List Suffix}
    (left : Spelled (Suffixes Item · before)) (right : Spelled (Suffixes Item · after)) :
    Spelled (Suffixes Item · (before ++ after)) :=
  spelled_append left right fun _ _ => suffixes_append

theorem solid_suffixes {tokens : List Token} {suffixes : List Suffix} (spelled : Suffixes DiceSuffix tokens suffixes) :
    Solid tokens := by
  induction spelled with
  | nil => exact List.forall_mem_nil _
  | cons first _ ih => exact List.forall_mem_append.mpr ⟨solid_dice_suffix first, ih⟩

theorem spelled_single_suffixes {single : Single} (unsigned : Unsigned single.tests) :
    Spelled (Suffixes DiceSuffix · (single.suffixesWith single.tail.modifier.addends)) := by
  have settled {suffixes : List Suffix} (settled : ∀ suffix ∈ suffixes, Settled suffix) :
      Spelled (Suffixes DiceSuffix · suffixes) :=
    spelled_suffixes fun suffix found => spelled_of_writes (writes_dice_suffix (settled suffix found) stops_nil)
      fun _ => solid_dice_suffix
  have order : Spelled (Suffixes DiceSuffix · single.order.suffixes) :=
    spelled_of_writes (writes_order single.order (unmarked_of_closes closes_nil)) fun _ => solid_suffixes
  have selection := settled (settled_single unsigned)
  have shift := settled (settled_addends single.tail.modifier)
  exact spelled_suffixes_append (spelled_suffixes_append selection order) shift

/-- The die and its suffixes. -/
theorem spelled_dice {single : Single} (regular : single.Regular) :
    Spelled (DiceOf single.multiplier · single) := by
  refine spelled_append (spelled_die regular.die) (spelled_single_suffixes regular.tests) ?_
  intro left right ofDie spelled
  obtain ⟨token, rfl, isDie⟩ := ofDie
  exact .intro isDie spelled (single_of_addends (addends_add_up _))

theorem spelled_counted {single : Single} (regular : single.Regular) {size : Whole} {n : Nat} (same : size.val = n) :
    Spelled (fun tokens =>
      ∃ number inner, tokens = number :: inner ∧ IsNumber number size ∧ DiceOf single.multiplier inner single) := by
  refine spelled_append (spelled_number same) (spelled_dice regular) ?_
  intro left right ofNumber dice
  obtain ⟨number, rfl, isNumber⟩ := ofNumber
  exact ⟨number, right, rfl, isNumber, dice⟩

/-- A roll is spelled for itself, and behind a member of its group. -/
structure Denoted (roll : Roll) : Prop where
  alone : roll.isNegative = false → Spelled (Derives (.roll roll))
  behind : ∀ previous : Roll, previous.FitsBehind roll → Spelled (Joins previous roll)

theorem single_denoted {single : Single} (regular : single.Regular) : Denoted (.single single) := by
  constructor
  · intro nonnegative
    obtain ⟨n, same, -⟩ := text_of_nonnegative (Int.not_lt.mp (of_decide_eq_false nonnegative))
    refine spelled_mono (spelled_counted regular same) ?_
    intro tokens given
    obtain ⟨number, inner, rfl, isNumber, dice⟩ := given
    exact .countedDice isNumber dice
  · intro previous fits
    by_cases bare : single.multiplier = .one ∨ single.multiplier = .minusOne
    · refine spelled_sign single.multiplier.isNegative (spelled_dice regular) ?_
      intro sign inner kind dice others rest members
      rw [eq_unit_of_bare bare] at dice
      exact .signDice kind dice members
    · obtain ⟨size, same, value_eq⟩ := size_of_ne_lowest regular.multiplier
      rw [not_or] at bare
      refine spelled_sign single.multiplier.isNegative (spelled_counted regular same) ?_
      intro sign tokens kind given others rest members
      obtain ⟨number, inner, rfl, isNumber, dice⟩ := given
      exact .signCountedDice kind isNumber value_eq (fits bare.1 bare.2) dice members

theorem spelled_signs {previous : Roll} {others : List Roll} (denoted : ∀ member ∈ others, Denoted member)
    (chained : previous.Chained others) : Spelled (Derives (.signs previous others)) := by
  induction others generalizing previous with
  | nil => exact spelled_nil .signsNil
  | cons member others ih =>
      obtain ⟨ofMember, ofOthers⟩ := List.forall_mem_cons.mp denoted
      exact spelled_append (ofMember.behind previous chained.1) (ih ofOthers chained.2)
        fun _ _ joins members => joins _ _ members

theorem spelled_commas {others : List Roll} (denoted : ∀ member ∈ others, Denoted member)
    (nonnegative : ∀ member ∈ others, member.isNegative = false) : Spelled (Derives (.commas others)) := by
  induction others with
  | nil => exact spelled_nil .commasNil
  | cons member others ih =>
      obtain ⟨ofMember, ofOthers⟩ := List.forall_mem_cons.mp denoted
      obtain ⟨signless, nonnegative⟩ := List.forall_mem_cons.mp nonnegative
      have listed : Spelled (fun tokens =>
          ∃ comma inner, tokens = comma :: inner ∧ comma.kind = .comma ∧ Derives (.roll member) inner) :=
        spelled_cons (rfl : classify ',' [] = _) (by decide) (ofMember.alone signless)
          fun comma inner kind derived => ⟨comma, inner, rfl, kind, derived⟩
      refine spelled_append listed (ih ofOthers nonnegative) ?_
      intro left right given members
      obtain ⟨comma, inner, rfl, kind, derived⟩ := given
      exact .comma kind derived members

theorem spelled_members {first : Roll} {others : List Roll} {combined : Bool}
    (denoted : ∀ member ∈ others, Denoted member) (joinable : first.Joinable others combined) :
    Spelled (Derives (.members first others combined)) := by
  cases combined with
  | true => exact spelled_signs denoted joinable.2
  | false => exact spelled_commas denoted joinable.2.2

theorem spelled_braced {first : Roll} {others : List Roll} {tail : Tail} {combined : Bool} (negative : Bool)
    (ofFirst : Denoted first) (ofOthers : ∀ member ∈ others, Denoted member)
    (joinable : first.Joinable others combined) (unsigned : Unsigned tail.tests) :
    Spelled (Derives (.braced negative (.group first others tail combined negative))) := by
  have value := tail_of_addends (addends_add_up tail.modifier)
  have closing : Spelled (fun tokens => ∃ closing after, tokens = closing :: after ∧ closing.kind = .closing ∧
      Suffixes GroupSuffix after (tail.suffixesWith tail.modifier.addends)) :=
    spelled_cons (rfl : classify '\x7d' [] = _) (by decide) (spelled_tail unsigned)
      fun closing after kind spelled => ⟨closing, after, rfl, kind, spelled⟩
  have behind : Spelled (fun tokens => ∀ (opening : Token) inner, opening.kind = .opening →
      Derives (.roll first) inner →
        Derives (.braced negative (.group first others tail combined negative)) (opening :: (inner ++ tokens))) := by
    refine spelled_append (spelled_members ofOthers joinable) closing ?_
    intro members right derived shut opening inner opens member
    obtain ⟨closing, after, rfl, kind, spelled⟩ := shut
    exact derives_braced joinable opens member derived kind spelled value
  have inside : Spelled (fun tokens => ∀ opening : Token, opening.kind = .opening →
      Derives (.braced negative (.group first others tail combined negative)) (opening :: tokens)) :=
    spelled_append (ofFirst.alone joinable.1) behind
      fun inner _ member derives opening opens => derives opening inner opens member
  exact spelled_cons (rfl : classify '\x7b' [] = _) (by decide) inside
    fun opening _ opens derives => derives opening opens

theorem group_denoted {first : Roll} {others : List Roll} {tail : Tail} {combined negative : Bool}
    (ofFirst : Denoted first) (ofOthers : ∀ member ∈ others, Denoted member)
    (joinable : first.Joinable others combined) (unsigned : Unsigned tail.tests) :
    Denoted (.group first others tail combined negative) := by
  have braced (negative : Bool) := spelled_braced negative ofFirst ofOthers joinable unsigned
  constructor
  · intro nonnegative
    have signless : negative = false := nonnegative
    subst signless
    exact spelled_mono (braced false) fun _ => .group
  · intro previous _
    refine spelled_sign negative (braced negative) ?_
    intro sign tokens kind derived others rest members
    exact .signGroup kind derived members

theorem roll_denoted (roll : Roll) : roll.AllRegular → Denoted roll := by
  induction roll using Roll.members_induction with
  | single single =>
      intro regular
      exact single_denoted (Roll.forall_nodes_single.mp regular)
  | group first others tail combined negative ih =>
      obtain ⟨ihFirst, ihOthers⟩ := List.forall_mem_cons.mp ih
      intro regular
      obtain ⟨⟨joinable, unsigned⟩, regularFirst, regularOthers⟩ := Roll.forall_nodes_group.mp regular
      refine group_denoted (ihFirst regularFirst) ?_ joinable unsigned
      exact fun member found => ihOthers member found (regularOthers member found)

/-- A roll is what some notation denotes exactly if it can be denoted. -/
theorem exists_parse_eq_ok_iff (roll : Roll) : (∃ text, parse text = .ok roll) ↔ roll.Denotable := by
  constructor
  · intro denotes
    obtain ⟨text, denotes⟩ := denotes
    exact denotable_of_read denotes
  · intro denotable
    obtain ⟨cs, derives⟩ := (roll_denoted roll denotable.regular).alone denotable.nonnegative
    exact ⟨String.ofList cs, by rw [parse_of_list]; exact read_eq_ok_iff_derives.mpr (derives 0)⟩

end Notation

end Tabletop
