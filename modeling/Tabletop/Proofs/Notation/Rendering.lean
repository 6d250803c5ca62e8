import Mathlib
import Tabletop.Proofs.Notation.Image
import Tabletop.Proofs.Notation.Spelling

/-!
# Canonical notations are read back

The canonical notation of a roll that a notation can denote has a derivation, and the derivation gives the roll itself.
One roll alone is lost: the lowest modifier is written as a sign and a number that is too large to be read.
-/

namespace Tabletop.Notation

set_option autoImplicit false

variable {rest : List Char}

theorem stops_die (die : Die) (rest : List Char) : Stops (die.name ++ rest) := by
  cases die <;> exact stops_cons rfl

theorem multiplier_text_cases (multiplier : Whole) :
    multiplier = .one ∧ Single.multiplierText multiplier = [] ∨
      multiplier = .minusOne ∧ Single.multiplierText multiplier = ['-'] ∨
      (multiplier ≠ .one ∧ multiplier ≠ .minusOne) ∧ Single.multiplierText multiplier = multiplier.text := by
  unfold Single.multiplierText
  by_cases one : multiplier = .one
  · exact .inl ⟨one, if_pos one⟩
  · by_cases minusOne : multiplier = .minusOne
    · exact .inr (.inl ⟨minusOne, by rw [if_neg one, if_pos minusOne]⟩)
    · exact .inr (.inr ⟨⟨one, minusOne⟩, by rw [if_neg one, if_neg minusOne]⟩)

theorem writes_counted {single : Single} (regular : single.Regular)
    (modest : single.tail.modifier.val ≠ -2147483648) (closes : Closes rest) {size : Whole} {n : Nat}
    (same : size.val = n) :
    Writes (Decimal.digits n ++ (single.die.name ++ spell single.suffixes)) rest (fun tokens =>
      ∃ number inner, tokens = number :: inner ∧ IsNumber number size ∧ DiceOf single.multiplier inner single) := by
  have stops := stops_die single.die (spell single.suffixes ++ rest)
  rw [← List.append_assoc] at stops
  refine writes_append (writes_number same stops) (writes_dice regular modest closes) ?_
  intro left right ofNumber given
  obtain ⟨number, alone, isNumber⟩ := ofNumber
  exact ⟨number, right, congrArg (· ++ right) alone, isNumber, given⟩

theorem writes_single {single : Single} (regular : single.Regular) (modest : single.tail.modifier.val ≠ -2147483648)
    (nonnegative : 0 ≤ single.multiplier.val) (closes : Closes rest) :
    Writes single.canonical rest (Derives (.roll (.single single))) := by
  have dice := writes_dice regular modest closes
  rw [spell_single]
  rcases multiplier_text_cases single.multiplier with ⟨one, text⟩ | ⟨minusOne, _⟩ | ⟨_, text⟩
  · rw [text]
    refine writes_mono dice ?_
    intro tokens given
    exact .dice (one ▸ given)
  · rw [minusOne] at nonnegative
    cases nonnegative
  · obtain ⟨n, same, written⟩ := text_of_nonnegative nonnegative
    rw [text, written]
    refine writes_mono (writes_counted regular modest closes same) ?_
    intro tokens given
    obtain ⟨number, inner, split, isNumber, dice⟩ := given
    exact split ▸ .countedDice isNumber dice

/-- Behind the previous member the tokens are one more member. -/
def Joins (previous member : Roll) (tokens : List Token) : Prop :=
  ∀ others rest, Derives (.signs member others) rest → Derives (.signs previous (member :: others)) (tokens ++ rest)

theorem joint_single (single : Single) :
    Roll.joint true (.single single) ++ Single.multiplierText single.multiplier =
      signMark single.multiplier.isNegative ::
        if single.multiplier = .one ∨ single.multiplier = .minusOne then []
        else Decimal.digits single.multiplier.val.natAbs := by
  have joint : Roll.joint true (.single single) = if single.multiplier.isNegative then [] else ['+'] := if_pos rfl
  rw [joint]
  rcases multiplier_text_cases single.multiplier with ⟨one, text⟩ | ⟨minusOne, text⟩ | ⟨counted, text⟩
  · rw [text, one]
    rfl
  · rw [text, minusOne]
    rfl
  · rw [text, if_neg (not_or.mpr counted), Whole.text, Whole.isNegative, signMark]
    simp only [decide_eq_true_eq]
    split <;> rfl

theorem eq_unit_of_bare {multiplier : Whole} (bare : multiplier = .one ∨ multiplier = .minusOne) :
    multiplier = unit multiplier.isNegative := by
  rcases bare with rfl | rfl
  · rfl
  · rfl

theorem writes_single_member {previous : Roll} {single : Single} (regular : single.Regular)
    (modest : single.tail.modifier.val ≠ -2147483648) (fits : previous.FitsBehind (.single single))
    (closes : Closes rest) :
    Writes (Roll.joint true (.single single) ++ single.canonical) rest (Joins previous (.single single)) := by
  have dice := writes_dice regular modest closes
  rw [spell_single, ← List.append_assoc, joint_single]
  by_cases bare : single.multiplier = .one ∨ single.multiplier = .minusOne
  · rw [if_pos bare]
    refine writes_cons [] (classify_sign _ _) dice ?_
    intro sign tokens kind given others rest members
    rw [eq_unit_of_bare bare] at given
    exact .signDice kind given members
  · rw [if_neg bare]
    obtain ⟨size, same, value_eq⟩ := size_of_ne_lowest regular.multiplier
    rw [not_or] at bare
    refine writes_cons [] (classify_sign _ _) (writes_counted regular modest closes same) ?_
    intro sign tokens kind given others rest members
    obtain ⟨number, inner, split, isNumber, dice⟩ := given
    rw [split]
    exact .signCountedDice kind isNumber value_eq (fits bare.1 bare.2) dice members

theorem canonical_of_negative {member : Roll} (negative : member.isNegative = true) :
    ∃ text, member.canonical = '-' :: text := by
  cases member with
  | single single =>
      have joint := joint_single single
      have bare : Roll.joint true (.single single) = [] := by
        rw [Roll.joint, if_pos rfl, if_pos negative]
      have sign : single.multiplier.isNegative = true := negative
      rw [bare, sign, List.nil_append] at joint
      rw [Roll.canonical, spell_single, joint]
      exact ⟨_, rfl⟩
  | group first others tail combined negated =>
      have sign : negated = true := negative
      rw [Roll.canonical, sign]
      exact ⟨_, rfl⟩

theorem closes_joint (combined : Bool) (member : Roll) (rest : List Char) :
    Closes (Roll.joint combined member ++ member.canonical ++ rest) := by
  unfold Roll.joint
  split
  · split
    · obtain ⟨text, written⟩ := canonical_of_negative ‹_›
      rw [written]
      exact closes_cons (by decide) _
    · exact closes_cons (by decide) _
  · exact closes_cons (by decide) _

theorem closes_others (combined : Bool) (others : List Roll) (closes : Closes rest) :
    Closes (Roll.canonicalOthers combined others ++ rest) := by
  cases others with
  | nil => exact closes
  | cons member others =>
      rw [Roll.canonicalOthers, List.append_assoc]
      exact closes_joint combined member _

/-- How a roll is written for itself, and how behind a member. -/
structure Written (roll : Roll) : Prop where
  alone : roll.isNegative = false → ∀ rest, Closes rest → Writes roll.canonical rest (Derives (.roll roll))
  behind : ∀ previous : Roll, previous.FitsBehind roll → ∀ rest, Closes rest →
    Writes (Roll.joint true roll ++ roll.canonical) rest (Joins previous roll)

theorem writes_signs {previous : Roll} {others : List Roll} (written : ∀ member ∈ others, Written member)
    (chained : previous.Chained others) (closes : Closes rest) :
    Writes (Roll.canonicalOthers true others) rest (Derives (.signs previous others)) := by
  induction others generalizing previous with
  | nil => exact writes_nil .signsNil
  | cons member others ih =>
      obtain ⟨ofMember, ofOthers⟩ := List.forall_mem_cons.mp written
      exact writes_append (ofMember.behind previous chained.1 _ (closes_others true others closes))
        (ih ofOthers chained.2) fun _ _ joins members => joins _ _ members

theorem writes_commas {others : List Roll} (written : ∀ member ∈ others, Written member)
    (nonnegative : ∀ member ∈ others, member.isNegative = false) (closes : Closes rest) :
    Writes (Roll.canonicalOthers false others) rest (Derives (.commas others)) := by
  induction others with
  | nil => exact writes_nil .commasNil
  | cons member others ih =>
      obtain ⟨ofMember, ofOthers⟩ := List.forall_mem_cons.mp written
      obtain ⟨signless, nonnegative⟩ := List.forall_mem_cons.mp nonnegative
      have alone := ofMember.alone signless _ (closes_others false others closes)
      have listed : Writes (Roll.joint false member ++ member.canonical) _
          (fun tokens => ∃ comma inner, tokens = comma :: inner ∧ comma.kind = .comma ∧ Derives (.roll member) inner) :=
        writes_cons [] rfl alone fun comma inner kind derived => ⟨comma, inner, rfl, kind, derived⟩
      refine writes_append listed (ih ofOthers nonnegative) ?_
      intro left right given members
      obtain ⟨comma, inner, split, kind, derived⟩ := given
      rw [split]
      exact .comma kind derived members

def Phrase.members (first : Roll) (others : List Roll) : Bool → Phrase
  | true => .signs first others
  | false => .commas others

theorem writes_members {first : Roll} {others : List Roll} {combined : Bool}
    (written : ∀ member ∈ others, Written member) (joinable : first.Joinable others combined) (closes : Closes rest) :
    Writes (Roll.canonicalOthers combined others) rest (Derives (.members first others combined)) := by
  cases combined with
  | true => exact writes_signs written joinable.2 closes
  | false => exact writes_commas written joinable.2.2 closes

theorem derives_braced {opening closing : Token} {inner members after : List Token} {first : Roll} {others : List Roll}
    {suffixes : List Suffix} {tail : Tail} {combined negative : Bool} (joinable : first.Joinable others combined)
    (opens : opening.kind = .opening) (member : Derives (.roll first) inner)
    (derived : Derives (.members first others combined) members) (closes : closing.kind = .closing)
    (spelled : Suffixes GroupSuffix after suffixes) (value : TailOf suffixes tail) :
    Derives (.braced negative (.group first others tail combined negative))
      (opening :: (inner ++ (members ++ closing :: after))) := by
  rw [← List.append_assoc]
  cases combined with
  | true => exact .joined opens member derived closes spelled value
  | false =>
      cases others with
      | nil => exact absurd rfl joinable.2.1
      | cons second others => exact .listed opens member derived closes spelled value

/-- The tokens close a group behind its members. -/
def Shut (members : List Token → Prop) (tail : Tail) (tokens : List Token) : Prop :=
  ∃ inner closing after, tokens = inner ++ closing :: after ∧ members inner ∧ closing.kind = .closing ∧
    Suffixes GroupSuffix after tail.suffixes

theorem writes_shut {text : List Char} {members : List Token → Prop} {tail : Tail} (unsigned : Unsigned tail.tests)
    (modest : tail.modifier.val ≠ -2147483648) (closes : Closes rest)
    (written : Writes text ('\x7d' :: (spell tail.suffixes ++ rest)) members) :
    Writes (text ++ '\x7d' :: spell tail.suffixes) rest (Shut members tail) := by
  have closing : Writes ('\x7d' :: spell tail.suffixes) rest (fun tokens =>
      ∃ closing after, tokens = closing :: after ∧ closing.kind = .closing ∧
        Suffixes GroupSuffix after tail.suffixes) :=
    writes_cons [] rfl (writes_tail unsigned modest (stops_of_closes closes))
      fun closing after kind spelled => ⟨closing, after, rfl, kind, spelled⟩
  refine writes_append written closing ?_
  intro inner outer given shut
  obtain ⟨closing, after, split, kind, spelled⟩ := shut
  exact ⟨inner, closing, after, congrArg _ split, given, kind, spelled⟩

def braces (first : Roll) (others : List Roll) (tail : Tail) (combined : Bool) : List Char :=
  '\x7b' :: (first.canonical ++ (Roll.canonicalOthers combined others ++ '\x7d' :: spell tail.suffixes))

theorem canonical_group (first : Roll) (others : List Roll) (tail : Tail) (combined negative : Bool) :
    (Roll.group first others tail combined negative).canonical =
      (if negative then ['-'] else []) ++ braces first others tail combined := by
  simp only [Roll.canonical, braces, Tail.suffixes, spell_append, spell_selection, spell_shift, List.append_assoc,
    List.cons_append]

theorem writes_braces {first : Roll} {others : List Roll} {tail : Tail} {combined : Bool} (negative : Bool)
    (ofFirst : Written first) (ofOthers : ∀ member ∈ others, Written member)
    (joinable : first.Joinable others combined) (unsigned : Unsigned tail.tests)
    (modest : tail.modifier.val ≠ -2147483648) (closes : Closes rest) :
    Writes (braces first others tail combined) rest
      (Derives (.braced negative (.group first others tail combined negative))) := by
  have brace : Closes ('\x7d' :: (spell tail.suffixes ++ rest)) := closes_cons (by decide) _
  have value := tail_of_suffixes tail
  have member : Writes first.canonical (Roll.canonicalOthers combined others ++ '\x7d' :: spell tail.suffixes ++ rest)
      (Derives (.roll first)) := by
    rw [List.append_assoc]
    exact ofFirst.alone joinable.1 _ (closes_others combined others brace)
  have inside : Writes (first.canonical ++ (Roll.canonicalOthers combined others ++ '\x7d' :: spell tail.suffixes)) rest
      (fun tokens => ∀ opening : Token, opening.kind = .opening →
        Derives (.braced negative (.group first others tail combined negative)) (opening :: tokens)) := by
    have members := writes_members ofOthers joinable brace
    refine writes_append member (writes_shut unsigned modest closes members) ?_
    intro left right derived shut opening opens
    obtain ⟨inner, closing, after, rfl, members, kind, spelled⟩ := shut
    exact derives_braced joinable opens derived members kind spelled value
  exact writes_cons [] rfl inside fun opening tokens kind derives => derives opening kind

theorem group_written {first : Roll} {others : List Roll} {tail : Tail} {combined negative : Bool}
    (ofFirst : Written first) (ofOthers : ∀ member ∈ others, Written member)
    (joinable : first.Joinable others combined) (unsigned : Unsigned tail.tests)
    (modest : tail.modifier.val ≠ -2147483648) : Written (.group first others tail combined negative) := by
  constructor
  · intro nonnegative rest closes
    have signless : negative = false := nonnegative
    subst signless
    have braced := writes_braces false ofFirst ofOthers joinable unsigned modest closes
    rw [canonical_group]
    exact writes_mono braced fun _ => .group
  · intro previous _ rest closes
    have braced := writes_braces negative ofFirst ofOthers joinable unsigned modest closes
    have sign : Roll.joint true (.group first others tail combined negative) ++
        (Roll.group first others tail combined negative).canonical =
          signMark negative :: braces first others tail combined := by
      rw [canonical_group]
      cases negative <;> rfl
    rw [sign]
    refine writes_cons [] (classify_sign _ _) braced ?_
    intro sign tokens kind derived others rest members
    exact .signGroup kind derived members

theorem single_written {single : Single} (regular : single.Regular)
    (modest : single.tail.modifier.val ≠ -2147483648) : Written (.single single) := by
  constructor
  · intro nonnegative rest closes
    exact writes_single regular modest (Int.not_lt.mp (of_decide_eq_false nonnegative)) closes
  · intro previous fits rest closes
    exact writes_single_member regular modest fits closes

theorem roll_written (roll : Roll) :
    roll.AllRegular → (∀ node ∈ roll.nodes, node.tail.modifier.val ≠ -2147483648) → Written roll := by
  induction roll using Roll.members_induction with
  | single single =>
      intro regular modest
      exact single_written (Roll.forall_nodes_single.mp regular) (Roll.forall_nodes_single.mp modest)
  | group first others tail combined negative ih =>
      obtain ⟨ihFirst, ihOthers⟩ := List.forall_mem_cons.mp ih
      intro regular modest
      obtain ⟨⟨joinable, unsigned⟩, regularFirst, regularOthers⟩ := Roll.forall_nodes_group.mp regular
      obtain ⟨modestTail, modestFirst, modestOthers⟩ := Roll.forall_nodes_group.mp modest
      refine group_written (ihFirst regularFirst modestFirst) ?_ joinable unsigned modestTail
      intro member found
      exact ihOthers member found (regularOthers member found) (modestOthers member found)

theorem token_of_step {reading next : Reading} {token : Token} (step : Reading.Step reading token next) :
    token.kind ≠ .space ∧ (token.kind = .number → ∃ value, IsNumber token value) := by
  have other {kind : Kind} (same : token.kind = kind) (notSpace : kind ≠ .space) (notNumber : kind ≠ .number) :
      token.kind ≠ .space ∧ (token.kind = .number → ∃ value, IsNumber token value) := by
    rw [same]
    exact ⟨notSpace, fun number => absurd number notNumber⟩
  have number {value : Whole} (isNumber : IsNumber token value) :
      token.kind ≠ .space ∧ (token.kind = .number → ∃ value, IsNumber token value) := by
    refine ⟨?_, fun _ => ⟨value, isNumber⟩⟩
    rw [isNumber.kind]
    decide
  cases step with
  | count isNumber => exact number isNumber
  | die isDie => exact other isDie.kind (by decide) (by decide)
  | opening kind => exact other kind (by decide) (by decide)
  | countedDie isDie => exact other isDie.kind (by decide) (by decide)
  | reroll kind => exact other kind (by simp) (by simp)
  | explosion kind => exact other kind (by simp) (by simp)
  | order kind => exact other kind (by simp) (by simp)
  | limit isLimit => exact other isLimit.kind (by simp) (by simp)
  | success kind => exact other kind (by simp) (by simp)
  | failure kind => exact other kind (by decide) (by decide)
  | @sign _ _ _ _ negative kind => exact other kind (by cases negative <;> decide) (by cases negative <;> decide)
  | closing kind => exact other kind (by decide) (by decide)
  | comma kind => exact other kind (by decide) (by decide)
  | handedDie isDie => exact other isDie.kind (by decide) (by decide)
  | relation kind => exact other kind (by simp) (by simp)
  | equality isNumber => exact number isNumber
  | threshold isNumber => exact number isNumber
  | number isNumber => exact number isNumber
  | signedDie isDie => exact other isDie.kind (by decide) (by decide)
  | signedOpening kind => exact other kind (by decide) (by decide)

theorem tokens_of_reads {reading last : Reading} {tokens : List Token} (reads : Reading.Reads reading tokens last) :
    ∀ token ∈ tokens, token.kind ≠ .space ∧ (token.kind = .number → ∃ value, IsNumber token value) := by
  induction reads with
  | nil => exact List.forall_mem_nil _
  | cons step _ ih => exact List.forall_mem_cons.mpr ⟨token_of_step step, ih⟩

theorem filter_space_of_derives {roll : Roll} {tokens : List Token} (derives : Derives (.roll roll) tokens) :
    tokens.filter (!·.isSpace) = tokens := by
  obtain ⟨_, reads⟩ := Reading.derives_read_by derives []
  rw [List.filter_eq_self]
  intro token found
  have notSpace := (tokens_of_reads reads token found).1
  rw [Token.isSpace, decide_eq_false notSpace, Bool.not_false]

theorem read_canonical {roll : Roll} (denotable : roll.Denotable)
    (modest : ∀ node ∈ roll.nodes, node.tail.modifier.val ≠ -2147483648) : read roll.canonical = .ok roll := by
  have written := (roll_written roll denotable.regular modest).alone denotable.nonnegative [] closes_nil
  have derives := tokens_of_writes written
  rw [read_eq_ok_iff_derives, filter_space_of_derives derives]
  exact derives

theorem closes_append {left right : List Char} (before : Closes left) (after : Closes right) :
    Closes (left ++ right) := by
  cases left with
  | nil => exact after
  | cons c left => exact before

/-- A part of a text, where nothing that follows it can be part of its last token. -/
def Within (part whole : List Char) : Prop := ∃ left right, whole = left ++ (part ++ right) ∧ Closes right

theorem within_end (left part : List Char) : Within part (left ++ part) :=
  ⟨left, [], by rw [List.append_nil], closes_nil⟩

theorem within_trans {part middle whole : List Char} (inner : Within part middle) (outer : Within middle whole) :
    Within part whole := by
  obtain ⟨left, right, rfl, closes⟩ := inner
  obtain ⟨before, after, rfl, closes'⟩ := outer
  exact ⟨before ++ left, right ++ after, by simp only [List.append_assoc], closes_append closes closes'⟩

theorem member_within {combined : Bool} {member : Roll} {others : List Roll} (found : member ∈ others) :
    Within member.canonical (Roll.canonicalOthers combined others) := by
  induction others with
  | nil => cases found
  | cons other others ih =>
      rw [Roll.canonicalOthers, List.append_assoc]
      rcases List.mem_cons.mp found with rfl | found
      · have closes := closes_others combined others closes_nil
        rw [List.append_nil] at closes
        exact ⟨_, Roll.canonicalOthers combined others, rfl, closes⟩
      · obtain ⟨left, right, split, closes⟩ := ih found
        refine ⟨Roll.joint combined other ++ (other.canonical ++ left), right, ?_, closes⟩
        rw [split]
        simp only [List.append_assoc]

theorem first_within (first : Roll) (others : List Roll) (tail : Tail) (combined negative : Bool) :
    Within first.canonical (Roll.group first others tail combined negative).canonical := by
  have closes : Closes (Roll.canonicalOthers combined others ++ '\x7d' :: spell tail.suffixes) :=
    closes_others combined others (closes_cons (by decide) _)
  refine ⟨(if negative then ['-'] else []) ++ ['\x7b'], _, ?_, closes⟩
  rw [canonical_group, braces, List.append_assoc]
  rfl

theorem others_within (first : Roll) (others : List Roll) (tail : Tail) (combined negative : Bool) :
    Within (Roll.canonicalOthers combined others) (Roll.group first others tail combined negative).canonical := by
  have closes : Closes ('\x7d' :: spell tail.suffixes) := closes_cons (by decide) _
  refine ⟨(if negative then ['-'] else []) ++ '\x7b' :: first.canonical, _, ?_, closes⟩
  rw [canonical_group, braces, List.append_assoc]
  rfl

theorem own_modifier_within {roll : Roll} (shifted : roll.tail.modifier ≠ .zero) :
    Within roll.tail.modifier.signedText roll.canonical := by
  have written : roll.tail.modifierText = roll.tail.modifier.signedText := if_neg shifted
  rw [← written]
  cases roll with
  | single single => exact within_end _ _
  | group first others tail combined negative =>
      rw [Roll.canonical]
      exact within_end _ _

theorem modifier_within {roll : Roll} :
    ∀ node ∈ roll.nodes, node.tail.modifier ≠ .zero → Within node.tail.modifier.signedText roll.canonical := by
  induction roll using Roll.members_induction with
  | single single => exact Roll.forall_nodes_single.mpr own_modifier_within
  | group first others tail combined negative ih =>
      obtain ⟨ihFirst, ihOthers⟩ := List.forall_mem_cons.mp ih
      refine Roll.forall_nodes_group.mpr ⟨own_modifier_within, ?_, ?_⟩
      · intro node inside shifted
        exact within_trans (ihFirst node inside shifted) (first_within first others tail combined negative)
      · intro member found node inside shifted
        exact within_trans (within_trans (ihOthers member found node inside shifted) (member_within found))
          (others_within first others tail combined negative)

/-- The number behind the minus is too large to be read. -/
theorem not_read_of_lowest {value : Whole} (lowest : value.val = -2147483648) {cs : List Char}
    (within : Within value.signedText cs) (roll : Roll) : read cs ≠ .ok roll := by
  intro denotes
  obtain ⟨pending, reads⟩ := read_eq_ok.mp denotes
  obtain ⟨left, right, split, closes⟩ := within
  have text : value.signedText = '-' :: Decimal.digits 2147483648 := by
    rw [Whole.signedText, lowest]
    rfl
  have written : Writes value.signedText right (fun tokens =>
      ∃ token ∈ tokens, token.kind = .number ∧ token.text = Decimal.digits 2147483648) := by
    have number : Writes (Decimal.digits 2147483648) right (fun tokens =>
        ∃ token ∈ tokens, token.kind = .number ∧ token.text = Decimal.digits 2147483648) :=
      writes_digits (stops_of_closes closes) fun span => ⟨_, List.mem_singleton_self _, rfl, rfl⟩
    rw [text]
    refine writes_cons [] rfl number ?_
    intro sign tokens _ given
    obtain ⟨token, found, shape⟩ := given
    exact ⟨token, List.mem_cons_of_mem sign found, shape⟩
  have split' : cs = left ++ '-' :: (Decimal.digits 2147483648 ++ right) := by
    rw [split, text, List.cons_append]
  obtain ⟨middle, lexed⟩ := tokens_before_minus 0 left (Decimal.digits 2147483648 ++ right)
  obtain ⟨inner, stop, lexed', token, found, kind, digits⟩ := written middle
  rw [text, List.cons_append] at lexed'
  have member : token ∈ (tokens cs).filter (!·.isSpace) := by
    rw [List.mem_filter, tokens, split', lexed, lexed', Token.isSpace, kind]
    exact ⟨List.mem_append_right _ (List.mem_append_left _ found), rfl⟩
  obtain ⟨size, isNumber⟩ := (tokens_of_reads reads token member).2 kind
  have high := size.high
  rw [isNumber.value, digits, Decimal.value_digits] at high
  exact absurd high (by decide)

/-- A roll is read back exactly if a notation can denote it and no modifier in it is the lowest whole number. -/
theorem read_canonical_eq_ok_iff {roll : Roll} :
    read roll.canonical = .ok roll ↔
      roll.Denotable ∧ ∀ node ∈ roll.nodes, node.tail.modifier.val ≠ -2147483648 := by
  constructor
  · intro denotes
    refine ⟨denotable_of_read denotes, ?_⟩
    intro node inside lowest
    have shifted : node.tail.modifier ≠ .zero := by
      intro zero
      rw [zero] at lowest
      cases lowest
    exact not_read_of_lowest lowest (modifier_within node inside shifted) roll denotes
  · intro given
    exact read_canonical given.1 given.2

theorem parse_of_list (cs : List Char) : parse (String.ofList cs) = read cs := by
  rw [parse, String.toList_ofList]

/-- Which of all rolls have a canonical notation that denotes them. -/
theorem parse_canonical_eq_ok_iff (roll : Roll) :
    parse (String.ofList roll.canonical) = .ok roll ↔
      roll.Denotable ∧ ∀ node ∈ roll.nodes, node.tail.modifier.val ≠ -2147483648 := by
  rw [parse_of_list]
  exact read_canonical_eq_ok_iff

/-- Rendering a roll that was read and reading it again gives the roll back, unless a modifier in it has come to the
lowest whole number. -/
theorem parse_canonical_of_parse {text : String} {roll : Roll} (denotes : parse text = .ok roll) :
    parse (String.ofList roll.canonical) = .ok roll ↔
      ∀ node ∈ roll.nodes, node.tail.modifier.val ≠ -2147483648 := by
  rw [parse_of_list, read_canonical_eq_ok_iff]
  exact and_iff_right (denotable_of_read denotes)

theorem parse_canonical_of_least_kept :
    let roll : Roll := .single
      ⟨.one, .standard ⟨6, by decide, by decide⟩, [], none, .unsorted,
        ⟨⟨-2147483647, by decide, by decide⟩, none, none, none⟩⟩
    parse "d6-2147483647" = .ok roll ∧ parse (String.ofList roll.canonical) = .ok roll := by
  have denotes : parse "d6-2147483647" = .ok (.single
      ⟨.one, .standard ⟨6, by decide, by decide⟩, [], none, .unsorted,
        ⟨⟨-2147483647, by decide, by decide⟩, none, none, none⟩⟩) := by cbv
  refine ⟨denotes, (parse_canonical_of_parse denotes).mpr ?_⟩
  exact Roll.forall_nodes_single.mpr (by decide)

/-- Two modifiers in range come to the lowest whole number, and what is rendered then cannot be read. -/
theorem lowest_modifier_not_read_back :
    ∃ roll : Roll, parse "d6-2147483647-1" = .ok roll ∧ parse (String.ofList roll.canonical) ≠ .ok roll := by
  have denotes : parse "d6-2147483647-1" = .ok (.single
      ⟨.one, .standard ⟨6, by decide, by decide⟩, [], none, .unsorted,
        ⟨⟨-2147483648, by decide, by decide⟩, none, none, none⟩⟩) := by cbv
  refine ⟨_, denotes, ?_⟩
  rw [parse_of_list, Ne, read_canonical_eq_ok_iff]
  intro kept
  exact Roll.forall_nodes_single.mp kept.2 rfl

end Tabletop.Notation
