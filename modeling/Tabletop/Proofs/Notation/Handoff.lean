import Tabletop.Proofs.Notation.Insertion
import Tabletop.Proofs.Notation.Soundness
import Tabletop.Proofs.Roll.Surroundings

/-!
# Numbers handed to the next member

A number between a sign and a die is first a modifier of the member before the sign, and becomes the multiplier of the
die behind it. The member before it gets its modifier back, so a number that is written there changes the multiplier and
nothing else. Only where the number and the modifier before it have no sum is it refused.
-/

namespace Tabletop.Notation

set_option autoImplicit false

theorem reads_of_wording {tokens tokens' : List Token} {roll : Roll} {pending : Option Pending}
    (same : tokens.map Token.wording = tokens'.map Token.wording)
    (reads : Reading.Reads .start tokens ⟨[], .suffix roll pending⟩) :
    ∃ pending, Reading.Reads .start tokens' ⟨[], .suffix roll pending⟩ := by
  have fold (words : List Token) := @Reading.fold_moved
    (fun number => (words[number.start]?.map (·.span)).getD ⟨0, 0⟩) .start (numbered (words.map Token.wording))
  simp only [numbered_moved] at fold
  have first := fold tokens
  have second := fold tokens'
  have start (move : Span → Span) : Reading.start.moved move = Reading.start := rfl
  rw [start, Reading.fold_eq_ok.mpr reads, same] at first
  rw [start] at second
  cases done : (numbered (tokens'.map Token.wording)).foldlM Reading.step .start with
  | error fault =>
      rw [done] at first
      cases first
  | ok last =>
      rw [done] at first second
      obtain ⟨groups, expecting⟩ := last
      cases groups with
      | cons frame outer => cases first
      | nil =>
          cases expecting with
          | suffix finished open' =>
              cases first
              exact ⟨_, Reading.fold_eq_ok.mp second⟩
          | _ => cases first

section

variable {frame : Frame} {roll changed : Roll}

theorem dice_put {value : Whole} (put : roll.put? (.modifier value) = some changed) : changed.dice = roll.dice := by
  rw [put_modifier] at put
  obtain ⟨modifier, -, rfl⟩ := Option.map_eq_some_iff.mp put
  exact Roll.dice_with_tail _ roll

theorem dice_fill (slot : Slot) (test : Test) (roll : Roll) : (slot.fill test roll).dice = roll.dice := by
  cases slot with
  | success | failure => exact Roll.dice_with_tail _ roll
  | reroll | exploding => cases roll <;> rfl

theorem dice_close (frame : Frame) (last : Roll) :
    (frame.close last).dice = Roll.diceAll (frame.members ++ [last]) := by
  unfold Frame.close
  cases frame.members with
  | nil => exact Roll.dice_group _ _ _ _ _
  | cons first others => exact Roll.dice_group _ _ _ _ _

end

namespace Expecting

def dice : Expecting → Nat
  | roll | die _ => 0
  | suffix unfinished _ | test unfinished _ | threshold unfinished _ _ | modifier unfinished _ _ => unfinished.dice

end Expecting

namespace Reading

/-- How many dice were read: those of the finished members in all open groups, and those of the roll at hand. -/
def dice (reading : Reading) : Nat :=
  reading.expecting.dice + (reading.groups.map fun frame => Roll.diceAll frame.members).sum

theorem dice_step {reading next : Reading} {token : Token} (step : Step reading token next) :
    next.dice = reading.dice + if token.kind = .die then 1 else 0 := by
  cases step with
  | count isNumber => simp [dice, Expecting.dice, isNumber.kind]
  | die isDie => simp [dice, Expecting.dice, isDie.kind, Roll.dice_single, Nat.add_comm]
  | opening kind => simp [dice, Expecting.dice, kind, Roll.dice_all_nil]
  | countedDie isDie => simp [dice, Expecting.dice, isDie.kind, Roll.dice_single, Nat.add_comm]
  | reroll kind | explosion kind | success kind | failure kind | relation kind => simp [dice, Expecting.dice, kind]
  | order kind => simp [dice, Expecting.dice, kind, Roll.dice_single]
  | limit isLimit => simp [dice, Expecting.dice, isLimit.kind, Roll.dice_with_tail]
  | @sign _ _ _ _ negative kind => cases negative <;> simp_all [dice, Expecting.dice, signKind]
  | closing kind =>
      simp [dice, Expecting.dice, kind, dice_close, Roll.dice_all_append, Roll.dice_all_one]
      omega
  | comma kind unsigned =>
      simp [dice, Expecting.dice, kind, Frame.push, Roll.dice_all_append, Roll.dice_all_one]
      omega
  | handedDie isDie unlisted | signedDie isDie unlisted =>
      simp [dice, Expecting.dice, isDie.kind, Frame.push, Roll.dice_all_append, Roll.dice_all_one, Roll.dice_with_tail,
        Roll.dice_single]
      omega
  | equality isNumber | threshold isNumber => simp [dice, Expecting.dice, isNumber.kind, dice_fill]
  | number isNumber value_eq put => simp [dice, Expecting.dice, isNumber.kind, dice_put put]
  | signedOpening kind unlisted =>
      simp [dice, Expecting.dice, kind, Frame.push, Roll.dice_all_append, Roll.dice_all_one, Roll.dice_all_nil]
      omega

theorem dice_reads {reading last : Reading} {tokens : List Token} (reads : Reads reading tokens last) :
    last.dice = reading.dice + tokens.countP (·.kind = .die) := by
  induction reads with
  | nil => rfl
  | cons step _ ih =>
      rw [ih, dice_step step, List.countP_cons, Nat.add_assoc, Nat.add_comm (ite _ _ _)]
      simp only [decide_eq_true_eq]

end Reading

/-- The gap that an open group leaves for its next member. -/
structure Surrounds (frame : Frame) (gap : Gap) : Prop where
  before : gap.before = frame.members
  combined : frame.joint = some .sign → gap.combined = true

def Frame.gap (frame : Frame) (others : List Roll) (tail : Tail) (combined : Bool) : Gap :=
  ⟨frame.members, others, tail, combined, frame.negative⟩

section

variable {frame : Frame} {groups outer : List Frame} {member other last roll : Roll} {tokens rest : List Token}

theorem fill_gap (frame : Frame) (member : Roll) (others : List Roll) (tail : Tail) (combined : Bool) :
    (frame.gap others tail combined).fill member = frame.closeAll member others tail combined :=
  rfl

theorem dice_before_surrounding {gaps : List Gap} (surround : List.Forall₂ Surrounds groups gaps) :
    Roll.diceBefore gaps = (groups.map fun frame => Roll.diceAll frame.members).sum := by
  induction surround with
  | nil => rfl
  | cons first _ ih =>
      rw [List.map_cons, List.sum_cons, ← ih, ← first.before]
      rfl

theorem continues_other {combined : Bool} {others : List Roll} (same : other.tail = member.tail)
    (continues : Continues frame member combined others tokens) : Continues frame other combined others tokens := by
  cases continues with
  | commas unsigned listed derives => exact .commas unsigned listed derives
  | signs unlisted derives =>
      refine .signs unlisted ?_
      cases derives with
      | signsNil => exact .signsNil
      | signDice kind dice members => exact .signDice kind dice members
      | signCountedDice kind isNumber value fits dice members =>
          exact .signCountedDice kind isNumber value (same ▸ fits) dice members
      | signGroup kind braced members => exact .signGroup kind braced members

/-- Tokens that finish the open groups put the member into the gap that these leave, and any other member with the same
tail as well. -/
theorem unwinds_around (unwinds : Unwinds groups member rest last) :
    ∃ gaps, List.Forall₂ Surrounds groups gaps ∧ last = Roll.around gaps member ∧
      ∀ other, other.tail = member.tail → Unwinds groups other rest (Roll.around gaps other) := by
  induction unwinds with
  | nil => exact ⟨[], .nil, rfl, fun _ _ => .nil⟩
  | @cons frame outer member _ others tail combined _ _ _ _ _ members closes spelled value _ ih =>
      obtain ⟨gaps, surround, same, each⟩ := ih
      refine ⟨frame.gap others tail combined :: gaps, .cons ⟨rfl, ?_⟩ surround, same, ?_⟩
      · intro signed
        cases members with
        | signs => rfl
        | commas unsigned => exact absurd signed unsigned
      · intro other alike
        refine .cons (continues_other alike members) closes spelled value (each _ ?_)
        rw [← fill_gap, ← fill_gap, Gap.tail_fill, Gap.tail_fill]

theorem dice_of_other {multiplier other : Whole} {single : Single} (dice : DiceOf multiplier tokens single) :
    DiceOf other tokens { single with multiplier := other } := by
  cases dice with
  | intro isDie spelled value =>
      exact .intro isDie spelled ⟨rfl, value.die, value.rerolls, value.exploding, value.order, value.tail⟩

theorem dice_then_other {multiplier : Whole} {die : Token}
    (dice : DiceThen groups multiplier (die :: tokens) last) :
    ∃ gaps single, List.Forall₂ Surrounds groups gaps ∧ last = Roll.around gaps (.single single) ∧
      single.multiplier = multiplier ∧ IsDie die single.die ∧
      ∀ other, DiceThen groups other (die :: tokens)
        (Roll.around gaps (.single { single with multiplier := other })) := by
  obtain ⟨single, inner, rest, split, dice, unwinds⟩ := dice
  obtain ⟨gaps, surround, same, each⟩ := unwinds_around unwinds
  refine ⟨gaps, single, surround, same, ?_, ?_, ?_⟩
  · cases dice with
    | intro _ _ value => exact value.multiplier
  · cases dice with
    | intro known _ value =>
        rw [List.cons_append, List.cons.injEq] at split
        rw [split.1, value.die]
        exact known
  · intro other
    exact ⟨_, inner, rest, split, dice_of_other dice, each _ rfl⟩

end

namespace Reading

theorem step_sign {reading next : Reading} {sign : Token} {negative : Bool} (kind : sign.kind = signKind negative)
    (step : Step reading sign next) : ∃ groups roll pending,
      reading = ⟨groups, .suffix roll pending⟩ ∧ next = ⟨groups, .modifier roll negative sign.span⟩ := by
  have apart {other : Kind} (given : sign.kind = other) (none : other.mark? ≠ some (signMark negative)) : False := by
    rw [kind] at given
    exact none (given ▸ sign_kind_mark negative)
  have unmarked (negative : Bool) : none ≠ some (signMark negative) := by simp
  cases step with
  | @sign _ _ _ _ other kind' =>
      have same : other = negative := by
        rw [kind] at kind'
        cases negative <;> cases other <;> cases kind' <;> rfl
      subst same
      exact ⟨_, _, _, rfl, rfl⟩
  | opening kind' | closing kind' | comma kind' | signedOpening kind' =>
      exact (apart kind' (by cases negative <;> decide)).elim
  | reroll kind' | explosion kind' | order kind' | success kind' | failure kind' | relation kind' =>
      exact (apart kind' (unmarked negative)).elim
  | count known | die known | countedDie known | limit known | handedDie known | equality known | threshold known
    | number known | signedDie known => exact (apart known.kind (unmarked negative)).elim

theorem step_signed_die {groups : List Frame} {roll : Roll} {negative : Bool} {span : Span} {next : Reading}
    {token : Token} (kind : token.kind = .die) (step : Step ⟨groups, .modifier roll negative span⟩ token next) :
    ∃ frame outer die, groups = frame :: outer ∧ frame.joint ≠ some .comma ∧ IsDie token die ∧
      next = ⟨frame.push roll .sign :: outer, .suffix (.single (.plain (unit negative) die)) none⟩ := by
  cases step with
  | number isNumber =>
      rw [isNumber.kind] at kind
      cases kind
  | signedDie isDie unlisted => exact ⟨_, _, _, rfl, unlisted, isDie, rfl⟩
  | signedOpening opens =>
      rw [opens] at kind
      cases kind

end Reading

variable {front back : List Char} {left right : List Token} {sign die : Token} {negative : Bool} {roll : Roll} {n : Nat}

theorem exists_signed (negative : Bool) (small : n ≤ 2147483647) :
    ∃ size value : Whole, size.val = n ∧ value.val = signed negative size.val := by
  refine ⟨⟨n, by omega, by omega⟩, ⟨signed negative n, ?_, ?_⟩, rfl, rfl⟩ <;> cases negative <;> simp [signed] <;> omega

theorem step_number_refused {groups : List Frame} {previous : Roll} {span : Span} {number : Token}
    {size value : Whole} (isNumber : IsNumber number size) (value_eq : value.val = signed negative size.val)
    (beyond : ¬Whole.InRange (previous.tail.modifier.val + value.val)) :
    Reading.step ⟨groups, .modifier previous negative span⟩ number =
      .error (.unexpectedToken number.text number.span) := by
  have read : number.signedNumber negative = .ok value :=
    Token.signed_number_eq_ok.mpr ⟨size, isNumber.value, value_eq⟩
  have sum : previous.tail.modifier.add? value = none := by
    rw [Whole.InRange] at beyond
    exact Whole.ofInt?_eq_none.mpr (by omega)
  simp only [Reading.step, isNumber.kind, Reading.afterNumber, read, bind, Except.bind, sum]
  rfl

/-- Where it is one, the die gets the number. -/
theorem derives_with_number {frame : Frame} {outer : List Frame} {previous last : Roll} {open' : Option Pending}
    {number : Token} {size value : Whole} (isNumber : IsNumber number size)
    (value_eq : value.val = signed negative size.val)
    (fits : Whole.InRange (previous.tail.modifier.val + value.val)) (isSign : sign.kind = signKind negative)
    (unlisted : frame.joint ≠ some .comma)
    (readsLeft : Reading.Reads .start left ⟨frame :: outer, .suffix previous open'⟩)
    (dice : DiceThen (frame.push previous .sign :: outer) value (die :: right) last) :
    Derives (.roll last) (left ++ sign :: number :: die :: right) := by
  have unwinds := unwinds_counted_dice isSign isNumber value_eq fits unlisted dice
  exact derives_of_completes (completes_behind readsLeft (completes_of_finishes (finishes_of_unwinds unwinds)))

theorem exists_signed_member {pending : Option Pending} (isSign : sign.kind = signKind negative)
    (isDie : die.kind = .die) (reads : Reading.Reads .start (left ++ sign :: die :: right) ⟨[], .suffix roll pending⟩) :
    ∃ frame outer previous pending gap gaps single,
      frame.joint ≠ some .comma ∧ Reading.Reads .start left ⟨frame :: outer, .suffix previous pending⟩ ∧
      gap.before = frame.members ++ [previous] ∧ gap.combined = true ∧
      Roll.diceBefore (gap :: gaps) = left.countP (·.kind = .die) ∧ roll = .around (gap :: gaps) (.single single) ∧
      single.multiplier = unit negative ∧ IsDie die single.die ∧
      ∀ other, DiceThen (frame.push previous .sign :: outer) other (die :: right)
        (.around (gap :: gaps) (.single { single with multiplier := other })) := by
  rw [Reading.reads_append] at reads
  obtain ⟨before, readsLeft, reads⟩ := reads
  cases reads with
  | cons stepSign reads =>
      obtain ⟨groups, previous, earlier, rfl, rfl⟩ := Reading.step_sign isSign stepSign
      cases reads with
      | cons stepDie reads =>
          obtain ⟨frame, outer, shape, rfl, unlisted, known, rfl⟩ := Reading.step_signed_die isDie stepDie
          obtain ⟨gaps, single, surround, same, unit_eq, shape_eq, each⟩ :=
            dice_then_other (dice_then_of_finishes known (completes_of_reads reads))
          have counted := Reading.dice_reads readsLeft
          have before := dice_before_surrounding surround
          simp only [Reading.dice, Reading.start, Expecting.dice, Frame.push, List.map_cons, List.map_nil,
            List.sum_cons, List.sum_nil, Roll.dice_all_append, Roll.dice_all_one] at counted before
          cases surround with
          | cons surrounds others =>
              exact ⟨frame, outer, previous, earlier, _, _, single, unlisted, readsLeft, surrounds.before,
                surrounds.combined rfl, by omega, same, unit_eq, shape_eq, each⟩

/-- A number that is written between a sign and a die becomes the multiplier of the member that the die starts, under
the sign, and nothing else changes. That member stands in a combined group, behind the dice of all dice tokens before
it. The number is refused where it has no sum with the modifier of the member before the sign. -/
theorem parse_with_number {text : String} (parsed : parse text = .ok roll)
    (split : words text.toList = left ++ sign :: die :: right) (isSign : sign.kind = signKind negative)
    (isDie : die.kind = .die) (cut : text.toList = front ++ back) (behind : sign.span.stop ≤ byteCount front)
    (ahead : byteCount front ≤ die.span.start) (small : n ≤ 2147483647) :
    ∃ gap outer previous single multiplier,
      roll = .around (gap :: outer) (.single single) ∧ gap.combined = true ∧ gap.before.getLast? = some previous ∧
      Roll.diceBefore (gap :: outer) = left.countP (·.kind = .die) ∧ IsDie die single.die ∧
      single.multiplier = unit negative ∧ multiplier.val = signed negative n ∧
      parse (String.ofList (front ++ Decimal.digits n ++ back)) =
        if Whole.InRange (previous.tail.modifier.val + signed negative n) then
          .ok (.around (gap :: outer) (.single { single with multiplier }))
        else .error (.unexpectedToken (Decimal.digits n)
          ⟨byteCount front, byteCount front + byteCount (Decimal.digits n)⟩) := by
  obtain ⟨pending, reads⟩ := read_eq_ok.mp parsed
  change Reading.Reads .start (words text.toList) _ at reads
  rw [split] at reads
  obtain ⟨frame, outer, previous, earlier, gap, gaps, single, unlisted, readsLeft, before, combined, place, same,
    unit_eq, shape_eq, each⟩ := exists_signed_member isSign isDie reads
  obtain ⟨size, multiplier, size_eq, value_eq⟩ := exists_signed negative small
  obtain ⟨moved, lexed, alike⟩ := words_with_number split isSign isDie cut behind ahead n
  refine ⟨gap, gaps, previous, single, multiplier, same, combined, ?_, place, shape_eq, unit_eq, ?_, ?_⟩
  · rw [before]
    exact List.getLast?_concat
  · rw [value_eq, size_eq]
  · let number : Token :=
      ⟨.number, Decimal.digits n, ⟨byteCount front, byteCount front + byteCount (Decimal.digits n)⟩⟩
    have isNumber : IsNumber number size := ⟨rfl, size_eq.trans (congrArg Int.ofNat (Decimal.value_digits n).symm)⟩
    rw [← size_eq, ← value_eq, parse, String.toList_ofList]
    split
    · rename_i fits
      have wording : (left ++ sign :: number :: die :: right).map Token.wording =
          (words (front ++ Decimal.digits n ++ back)).map Token.wording := by
        rw [lexed]
        simp only [List.map_append, List.map_cons, alike]
        rfl
      have derives := derives_with_number isNumber value_eq fits isSign unlisted readsLeft (each multiplier)
      obtain ⟨pending, reads⟩ := Reading.derives_read_by derives []
      exact read_eq_ok.mpr (reads_of_wording wording reads)
    · rename_i beyond
      refine read_eq_error.mpr (.inl ⟨left ++ [sign], number, moved, _, ?_, readsLeft.trans (.cons (.sign isSign) .nil),
        step_number_refused isNumber value_eq beyond⟩)
      rw [lexed, List.append_assoc]
      rfl

theorem parse_with_number_in_group :
    let d (sides : Nat) (fits : 0 < sides ∧ sides < 4294967296) : Die := .standard ⟨sides, fits.1, fits.2⟩
    let shifted : Roll :=
      .single { Single.plain .one (d 6 (by decide)) with tail := { Tail.plain with modifier := .one } }
    let pair (multiplier : Whole) : Roll :=
      .group shifted [.single (.plain multiplier (d 8 (by decide)))] .plain true false
    let whole (multiplier : Whole) : Roll :=
      .group (.single (.plain .one (d 4 (by decide)))) [pair multiplier] .plain true false
    let five : Whole := ⟨-5, by decide, by decide⟩
    parse "\x7bd4+\x7bd6+1 -  d8\x7d\x7d" = .ok (whole .minusOne) ∧
      parse "\x7bd4+\x7bd6+1 - 5 d8\x7d\x7d" = .ok (whole five) ∧
      ∃ gap outer single multiplier, whole .minusOne = .around (gap :: outer) (.single single) ∧
        whole five = .around (gap :: outer) (.single { single with multiplier }) ∧
        Roll.diceBefore (gap :: outer) = 2 ∧ single.multiplier = .minusOne ∧ multiplier.val = -5 := by
  intro d shifted pair whole five
  have parsed : parse "\x7bd4+\x7bd6+1 -  d8\x7d\x7d" = .ok (whole .minusOne) := by cbv
  have result : parse "\x7bd4+\x7bd6+1 - 5 d8\x7d\x7d" = .ok (whole five) := by cbv
  have split : words "\x7bd4+\x7bd6+1 -  d8\x7d\x7d".toList = (words "\x7bd4+\x7bd6+1 -".toList).take 7 ++
      ⟨.minus, ['-'], ⟨10, 11⟩⟩ :: ⟨.die, ['d', '8'], ⟨13, 15⟩⟩ ::
        (words "\x7bd4+\x7bd6+1 -  d8\x7d\x7d".toList).drop 9 := by cbv
  have cut : "\x7bd4+\x7bd6+1 -  d8\x7d\x7d".toList = "\x7bd4+\x7bd6+1 - ".toList ++ " d8\x7d\x7d".toList := by decide
  have place : byteCount "\x7bd4+\x7bd6+1 - ".toList = 12 := by decide
  obtain ⟨gap, outer, _, single, multiplier, same, _, _, before, _, unit_eq, value_eq, changed⟩ :=
    @parse_with_number _ _ _ _ _ _ true _ 5 _ parsed split rfl rfl cut (by rw [place]; decide) (by rw [place]; decide)
      (by decide)
  have written : String.ofList ("\x7bd4+\x7bd6+1 - ".toList ++ Decimal.digits 5 ++ " d8\x7d\x7d".toList) =
      "\x7bd4+\x7bd6+1 - 5 d8\x7d\x7d" := by cbv
  rw [written, result] at changed
  split at changed
  · exact ⟨parsed, result, gap, outer, single, multiplier, same, Except.ok.inj changed, before.trans (by cbv), unit_eq,
      value_eq⟩
  · cases changed

/-- The modifier before the sign leaves no room for one more. -/
theorem number_beyond_modifier_refused :
    let text := "\x7bd6+2147483647+d8\x7d"
    let front := "\x7bd6+2147483647+".toList
    let back := "d8\x7d".toList
    (∃ roll, parse text = .ok roll) ∧ text.toList = front ++ back ∧
      (∃ left right, words text.toList =
        left ++ ⟨.plus, ['+'], ⟨14, 15⟩⟩ :: ⟨.die, ['d', '8'], ⟨15, 17⟩⟩ :: right) ∧ byteCount front = 15 ∧
      parse (String.ofList (front ++ Decimal.digits 1 ++ back)) = .error (.unexpectedToken ['1'] ⟨15, 16⟩) := by
  intro text front back
  let six : Single :=
    { Single.plain .one (.standard ⟨6, by decide, by decide⟩) with tail := { Tail.plain with modifier := .largest } }
  let eight : Single := .plain .one (.standard ⟨8, by decide, by decide⟩)
  have parsed : parse "\x7bd6+2147483647+d8\x7d" = .ok (.group (.single six) [.single eight] .plain true false) := by
    cbv
  have split : words "\x7bd6+2147483647+d8\x7d".toList = (words "\x7bd6+2147483647".toList) ++
      ⟨.plus, ['+'], ⟨14, 15⟩⟩ :: ⟨.die, ['d', '8'], ⟨15, 17⟩⟩ ::
        (words "\x7bd6+2147483647+d8\x7d".toList).drop 6 := by cbv
  have refused : parse "\x7bd6+2147483647+1d8\x7d" = .error (.unexpectedToken ['1'] ⟨15, 16⟩) := by cbv
  have written : String.ofList ("\x7bd6+2147483647+".toList ++ Decimal.digits 1 ++ "d8\x7d".toList) =
      "\x7bd6+2147483647+1d8\x7d" := by cbv
  exact ⟨⟨_, parsed⟩, by decide, ⟨_, _, split⟩, by decide, written ▸ refused⟩

end Tabletop.Notation
