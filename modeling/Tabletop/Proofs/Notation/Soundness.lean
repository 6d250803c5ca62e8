import Tabletop.Proofs.Notation.Completeness

/-!
# Readings are derivations

What a reading still has to meet is said in the terms of the grammar, for each of its states: the rest of the phrase
that it is in, and then the rest of every open group, innermost first. One step keeps this, so the whole of a notation
that is read has a derivation.
-/

namespace Tabletop.Notation

set_option autoImplicit false

/-- The tokens hold the members of a frame behind the given one, joined as the frame has them joined so far. -/
inductive Continues (frame : Frame) (member : Roll) : Bool → List Roll → List Token → Prop where
  | signs {others : List Roll} {tokens : List Token} (unlisted : frame.joint ≠ some .comma)
      (derives : Derives (.signs member others) tokens) : Continues frame member true others tokens
  | commas {others : List Roll} {tokens : List Token} (unsigned : frame.joint ≠ some .sign)
      (listed : others = [] → frame.joint = some .comma) (derives : Derives (.commas others) tokens) :
      Continues frame member false others tokens

/-- The tokens finish the open groups around a member, and the outermost of them is the roll. -/
inductive Unwinds : List Frame → Roll → List Token → Roll → Prop where
  | nil {roll : Roll} : Unwinds [] roll [] roll
  | cons {frame : Frame} {outer : List Frame} {member last : Roll} {others : List Roll} {tail : Tail}
      {combined : Bool} {inner after rest : List Token} {closing : Token} {suffixes : List Suffix}
      (members : Continues frame member combined others inner) (closes : closing.kind = .closing)
      (spelled : Suffixes GroupSuffix after suffixes) (value : TailOf suffixes tail)
      (unwinds : Unwinds outer (frame.closeAll member others tail combined) rest last) :
      Unwinds (frame :: outer) member (inner ++ closing :: (after ++ rest)) last

/-- The tokens hold more suffixes of the roll and then finish the open groups. -/
inductive Finishes (groups : List Frame) (roll : Roll) : List Token → Roll → Prop where
  | intro {tokens rest : List Token} {suffixes : List Suffix} {finished last : Roll}
      (spelled : Suffixes (Legal roll) tokens suffixes) (takes : roll.Takes suffixes finished)
      (unwinds : Unwinds groups finished rest last) : Finishes groups roll (tokens ++ rest) last

def DiceThen (groups : List Frame) (multiplier : Whole) (tokens : List Token) (last : Roll) : Prop :=
  ∃ single inner rest, tokens = inner ++ rest ∧ DiceOf multiplier inner single ∧
    Unwinds groups (.single single) rest last

/-- What the tokens have to be for the reading to end in the roll. -/
def Completes : Reading → List Token → Roll → Prop
  | ⟨groups, .roll⟩, tokens, last =>
    ∃ roll inner rest, tokens = inner ++ rest ∧ Derives (.roll roll) inner ∧ Unwinds groups roll rest last
  | ⟨groups, .die multiplier⟩, tokens, last => DiceThen groups multiplier tokens last
  | ⟨groups, .suffix roll none⟩, tokens, last => Finishes groups roll tokens last
  | ⟨groups, .suffix roll (some pending)⟩, tokens, last =>
    Finishes groups roll tokens last ∨
      ∃ frame outer, groups = frame :: outer ∧ frame.joint ≠ some .comma ∧
        DiceThen (frame.push (roll.withTail { roll.tail with modifier := pending.before }) .sign :: outer)
          pending.value tokens last
  | ⟨groups, .test roll slot⟩, tokens, last =>
    ∃ test inner rest, tokens = inner ++ rest ∧ Announced inner test ∧ Finishes groups (slot.fill test roll) rest last
  | ⟨groups, .threshold roll slot relation⟩, tokens, last =>
    ∃ number threshold rest, tokens = number :: rest ∧ IsNumber number threshold ∧
      Finishes groups (slot.fill ⟨relation, threshold⟩ roll) rest last
  | ⟨groups, .modifier roll negative _⟩, tokens, last =>
    ∀ sign : Token, sign.kind = signKind negative → Finishes groups roll (sign :: tokens) last

section

variable {groups outer : List Frame} {frame : Frame} {roll last : Roll} {tokens rest : List Token}

theorem legal_of_group_suffix (roll : Roll) {suffix : Suffix} (spelled : GroupSuffix tokens suffix) :
    Legal roll tokens suffix := by
  cases roll with
  | single single => exact .general spelled
  | group first others tail combined negative => exact spelled

theorem finishes_of_unwinds (unwinds : Unwinds groups roll tokens last) : Finishes groups roll tokens last :=
  .intro .nil .nil unwinds

theorem finishes_cons {suffix : Suffix} {next : Roll} (spelled : Legal roll tokens suffix)
    (put : roll.put? suffix = some next) (finishes : Finishes groups next rest last) :
    Finishes groups roll (tokens ++ rest) last := by
  cases finishes with
  | intro others takes unwinds =>
      rw [legal_put put] at others
      rw [← List.append_assoc]
      exact .intro (.cons spelled others) (.cons put takes) unwinds

theorem completes_of_finishes {pending : Option Pending} (finishes : Finishes groups roll tokens last) :
    Completes ⟨groups, .suffix roll pending⟩ tokens last := by
  cases pending with
  | none => exact finishes
  | some pending => exact .inl finishes

theorem finishes_test (slot : Slot) (test : Test) (spelled : Legal roll tokens (slot.suffix test))
    (finishes : Finishes groups (slot.fill test roll) rest last) : Finishes groups roll (tokens ++ rest) last :=
  finishes_cons spelled (put_slot_suffix roll slot test) finishes

theorem dice_then_of_finishes {multiplier : Whole} {token : Token} {die : Die} (isDie : IsDie token die)
    (finishes : Finishes groups (.single (.plain multiplier die)) tokens last) :
    DiceThen groups multiplier (token :: tokens) last := by
  cases finishes with
  | intro spelled takes unwinds =>
      obtain ⟨single, same, value⟩ := Roll.takes_single.mp takes
      rw [same] at unwinds
      exact ⟨single, _, _, rfl, .intro isDie spelled (single_from_plain.mp value), unwinds⟩

theorem takes_close_all {member finished : Roll} {others : List Roll} {combined : Bool} {suffixes : List Suffix} :
    (frame.closeAll member others .plain combined).Takes suffixes finished ↔
      ∃ tail, finished = frame.closeAll member others tail combined ∧ TailOf suffixes tail := by
  unfold Frame.closeAll
  cases frame.members <;> simp only [Roll.takes_group, tail_from_plain]

theorem legal_close_all {member : Roll} {others : List Roll} {tail : Tail} {combined : Bool} :
    Legal (frame.closeAll member others tail combined) = GroupSuffix := by
  unfold Frame.closeAll
  cases frame.members <;> rfl

theorem braced_of_unwinds {opening : Token} {span : Span} {negative : Bool} {first : Roll} {inner : List Token}
    (opens : opening.kind = .opening) (member : Derives (.roll first) inner)
    (unwinds : Unwinds (⟨span, negative, [], none⟩ :: groups) first rest last) :
    ∃ group braced beyond, opening :: (inner ++ rest) = braced ++ beyond ∧
      Derives (.braced negative group) braced ∧ Unwinds groups group beyond last := by
  cases unwinds with
  | @cons _ _ _ _ others tail combined between after beyond closing suffixes members closes spelled value unwinds =>
      have split : opening :: (inner ++ (between ++ closing :: (after ++ beyond))) =
          opening :: (inner ++ between ++ closing :: after) ++ beyond := by simp
      cases members with
      | signs _ derives => exact ⟨_, _, _, split, .joined opens member derives closes spelled value, unwinds⟩
      | commas _ listed derives =>
          cases others with
          | nil => cases listed rfl
          | cons second others => exact ⟨_, _, _, split, .listed opens member derives closes spelled value, unwinds⟩

theorem unwinds_sign {term : Roll} (tokens : List Token) (unlisted : frame.joint ≠ some .comma)
    (joins : ∀ others inner, Derives (.signs term others) inner →
      Derives (.signs roll (term :: others)) (tokens ++ inner))
    (unwinds : Unwinds (frame.push roll .sign :: outer) term rest last) :
    Unwinds (frame :: outer) roll (tokens ++ rest) last := by
  cases unwinds with
  | cons members closes spelled value unwinds =>
      rw [close_all_push] at unwinds
      cases members with
      | signs _ derives =>
          rw [← List.append_assoc]
          exact .cons (.signs unlisted (joins _ _ derives)) closes spelled value unwinds
      | commas unsigned => exact absurd rfl unsigned

theorem unwinds_comma {comma : Token} {member : Roll} (kind : comma.kind = .comma) (unsigned : frame.joint ≠ some .sign)
    (derives : Derives (.roll member) tokens) (unwinds : Unwinds (frame.push roll .comma :: outer) member rest last) :
    Unwinds (frame :: outer) roll (comma :: (tokens ++ rest)) last := by
  cases unwinds with
  | cons members closes spelled value unwinds =>
      rw [close_all_push] at unwinds
      cases members with
      | signs unlisted => exact absurd rfl unlisted
      | commas _ _ others =>
          rw [← List.append_assoc, ← List.cons_append]
          exact .cons (.commas unsigned (by simp) (.comma kind derives others)) closes spelled value unwinds

theorem unwinds_closing {closing : Token} (kind : closing.kind = .closing)
    (finishes : Finishes outer (frame.close roll) tokens last) :
    Unwinds (frame :: outer) roll (closing :: tokens) last := by
  rw [close_eq_close_all] at finishes
  cases finishes with
  | intro spelled takes unwinds =>
      rw [legal_close_all] at spelled
      obtain ⟨tail, same, value⟩ := takes_close_all.mp takes
      rw [same] at unwinds
      have members : Continues frame roll (frame.joint ≠ some .comma) [] [] := by
        by_cases joint : frame.joint = some .comma
        · rw [decide_eq_false (not_not_intro joint)]
          exact .commas (by simp [joint]) (fun _ => joint) .commasNil
        · rw [decide_eq_true joint]
          exact .signs joint .signsNil
      exact .cons members kind spelled value unwinds

theorem unwinds_signed_dice {sign : Token} {negative : Bool} (kind : sign.kind = signKind negative)
    (unlisted : frame.joint ≠ some .comma)
    (dice : DiceThen (frame.push roll .sign :: outer) (unit negative) tokens last) :
    Unwinds (frame :: outer) roll (sign :: tokens) last := by
  obtain ⟨single, inner, rest, rfl, dice, unwinds⟩ := dice
  exact unwinds_sign (sign :: inner) unlisted (fun _ _ => .signDice kind dice) unwinds

theorem unwinds_counted_dice {sign number : Token} {negative : Bool} {size multiplier : Whole}
    (kind : sign.kind = signKind negative) (isNumber : IsNumber number size)
    (value : multiplier.val = signed negative size.val)
    (fits : Whole.InRange (roll.tail.modifier.val + multiplier.val)) (unlisted : frame.joint ≠ some .comma)
    (dice : DiceThen (frame.push roll .sign :: outer) multiplier tokens last) :
    Unwinds (frame :: outer) roll (sign :: number :: tokens) last := by
  obtain ⟨single, inner, rest, rfl, dice, unwinds⟩ := dice
  exact unwinds_sign (sign :: number :: inner) unlisted
    (fun _ _ => .signCountedDice kind isNumber value fits dice) unwinds

end

theorem completes_of_step {reading next : Reading} {token : Token} {tokens : List Token} {last : Roll}
    (step : Reading.Step reading token next) (completes : Completes next tokens last) :
    Completes reading (token :: tokens) last := by
  cases step with
  | count isNumber =>
      obtain ⟨single, inner, rest, rfl, dice, unwinds⟩ := completes
      exact ⟨_, token :: inner, rest, rfl, .countedDice isNumber dice, unwinds⟩
  | die isDie =>
      obtain ⟨single, inner, rest, split, dice, unwinds⟩ := dice_then_of_finishes isDie completes
      exact ⟨_, inner, rest, split, .dice dice, unwinds⟩
  | opening kind =>
      obtain ⟨first, inner, rest, rfl, member, unwinds⟩ := completes
      obtain ⟨group, braced, beyond, split, derives, unwinds⟩ := braced_of_unwinds kind member unwinds
      exact ⟨group, braced, beyond, split, .group derives, unwinds⟩
  | countedDie isDie => exact dice_then_of_finishes isDie completes
  | @reroll _ _ single _ once kind =>
      obtain ⟨test, inner, rest, rfl, announced, finishes⟩ := completes
      have spelled : Legal (.single single) (token :: inner) (.reroll ⟨test, once⟩) := DiceSuffix.reroll kind announced
      exact completes_of_finishes (finishes_test (.reroll once) test spelled finishes)
  | @explosion _ _ single _ explosion kind =>
      obtain ⟨test, inner, rest, rfl, announced, finishes⟩ := completes
      have spelled : Legal (.single single) (token :: inner) (.explosion ⟨explosion, test⟩) :=
        DiceSuffix.explosion kind announced
      exact completes_of_finishes (finishes_test (.exploding explosion) test spelled finishes)
  | @order _ _ single _ order kind =>
      have spelled : Legal (.single single) [token] (.order order) := DiceSuffix.order kind
      exact completes_of_finishes (finishes_cons spelled (put_order single order) completes)
  | @limit _ _ roll _ _ isLimit =>
      have spelled := legal_of_group_suffix roll (.limit isLimit)
      exact completes_of_finishes (finishes_cons spelled (put_limit _ _) completes)
  | @success _ _ roll _ _ kind =>
      obtain ⟨number, threshold, rest, rfl, isNumber, finishes⟩ := completes
      have spelled := legal_of_group_suffix roll (.success kind isNumber)
      exact completes_of_finishes (finishes_test .success _ spelled finishes)
  | @failure _ _ roll _ kind =>
      obtain ⟨test, inner, rest, rfl, announced, finishes⟩ := completes
      have spelled := legal_of_group_suffix roll (.failure kind announced)
      exact completes_of_finishes (finishes_test .failure test spelled finishes)
  | sign kind => exact completes_of_finishes (completes token kind)
  | closing kind => exact completes_of_finishes (finishes_of_unwinds (unwinds_closing kind completes))
  | comma kind unsigned =>
      obtain ⟨member, inner, rest, rfl, derives, unwinds⟩ := completes
      exact completes_of_finishes (finishes_of_unwinds (unwinds_comma kind unsigned derives unwinds))
  | handedDie isDie unlisted => exact .inr ⟨_, _, rfl, unlisted, dice_then_of_finishes isDie completes⟩
  | relation kind =>
      obtain ⟨number, threshold, rest, rfl, isNumber, finishes⟩ := completes
      exact ⟨_, [token, number], rest, rfl, .related kind isNumber, finishes⟩
  | equality isNumber => exact ⟨_, [token], tokens, rfl, .bare isNumber, completes⟩
  | threshold isNumber => exact ⟨token, _, tokens, rfl, isNumber, completes⟩
  | @number _ _ roll _ _ _ _ _ isNumber value_eq put =>
      intro sign kind
      rcases completes with finishes | ⟨frame, outer, rfl, unlisted, dice⟩
      · have spelled := legal_of_group_suffix roll (.modifier kind isNumber value_eq)
        exact finishes_cons spelled put finishes
      · rw [restore_modifier put] at dice
        have fits := in_range_of_put_modifier put
        exact finishes_of_unwinds (unwinds_counted_dice kind isNumber value_eq fits unlisted dice)
  | signedDie isDie unlisted =>
      intro sign kind
      exact finishes_of_unwinds (unwinds_signed_dice kind unlisted (dice_then_of_finishes isDie completes))
  | signedOpening opens unlisted =>
      intro sign kind
      obtain ⟨first, inner, rest, rfl, member, unwinds⟩ := completes
      obtain ⟨group, braced, beyond, split, derives, unwinds⟩ := braced_of_unwinds opens member unwinds
      rw [split]
      exact finishes_of_unwinds
        (unwinds_sign (sign :: braced) unlisted (fun _ _ => .signGroup kind derives) unwinds)

theorem completes_behind {reading middle : Reading} {tokens rest : List Token} {last : Roll}
    (reads : Reading.Reads reading tokens middle) (completes : Completes middle rest last) :
    Completes reading (tokens ++ rest) last := by
  induction reads with
  | nil => exact completes
  | cons step _ ih => exact completes_of_step step (ih completes)

theorem completes_of_reads {reading : Reading} {tokens : List Token} {last : Roll} {pending : Option Pending}
    (reads : Reading.Reads reading tokens ⟨[], .suffix last pending⟩) : Completes reading tokens last := by
  have finished := completes_behind reads (completes_of_finishes (finishes_of_unwinds .nil))
  rwa [List.append_nil] at finished

theorem derives_of_completes {tokens : List Token} {roll : Roll} (completes : Completes .start tokens roll) :
    Derives (.roll roll) tokens := by
  obtain ⟨_, inner, _, rfl, derives, unwinds⟩ := completes
  cases unwinds with
  | nil => rwa [List.append_nil]

theorem derives_of_reads {tokens : List Token} {roll : Roll} {pending : Option Pending}
    (reads : Reading.Reads .start tokens ⟨[], .suffix roll pending⟩) : Derives (.roll roll) tokens :=
  derives_of_completes (completes_of_reads reads)

/-- What characters denote is what their tokens derive, white space aside. -/
theorem read_eq_ok_iff_derives {cs : List Char} {roll : Roll} :
    read cs = .ok roll ↔ Derives (.roll roll) ((tokens cs).filter (!·.isSpace)) := by
  rw [read_eq_ok]
  constructor
  · intro reading
    obtain ⟨pending, reads⟩ := reading
    exact derives_of_reads reads
  · intro derives
    exact Reading.derives_read_by derives []

/-- The notations that can be read are those of the grammar, all of their tokens included, and each denotes the roll
that the grammar gives it. -/
theorem parse_eq_ok_iff_derives (text : String) (roll : Roll) :
    parse text = .ok roll ↔ Derives (.roll roll) ((tokens text.toList).filter (!·.isSpace)) :=
  read_eq_ok_iff_derives

end Tabletop.Notation
