import Tabletop.Proofs.Notation.Steps

/-!
# Derivations are read

Tokens with a derivation take a reading from where their phrase is due to where it is finished. Each phrase is read
inside any open groups, and what the suffix before it left pending does not matter: a sign or a comma comes first.
-/

namespace Tabletop.Notation

set_option autoImplicit false

def Frame.closeAll (frame : Frame) (member : Roll) (others : List Roll) (tail : Tail) (combined : Bool) : Roll :=
  match frame.members with
  | [] => .group member others tail combined frame.negative
  | first :: before => .group first (before ++ member :: others) tail combined frame.negative

theorem close_eq_close_all (frame : Frame) (last : Roll) :
    frame.close last = frame.closeAll last [] .plain (frame.joint ≠ some .comma) := by
  unfold Frame.close Frame.closeAll
  cases frame.members <;> rfl

theorem close_all_push (frame : Frame) (member second : Roll) (joint : Joint) (others : List Roll) (tail : Tail)
    (combined : Bool) :
    (frame.push member joint).closeAll second others tail combined =
      frame.closeAll member (second :: others) tail combined := by
  unfold Frame.push Frame.closeAll
  cases frame.members with
  | nil => rfl
  | cons first before => simp

/-- What may follow a roll depends on its shape alone. -/
def Legal : Roll → List Token → Suffix → Prop
  | .single _ => DiceSuffix
  | .group .. => GroupSuffix

theorem legal_put {roll next : Roll} {suffix : Suffix} (put : roll.put? suffix = some next) :
    Legal next = Legal roll := by
  cases roll with
  | single single =>
      obtain ⟨_, _, rfl⟩ := Option.map_eq_some_iff.mp put
      rfl
  | group first others tail combined negative =>
      obtain ⟨_, _, rfl⟩ := Option.map_eq_some_iff.mp put
      rfl

namespace Reading

variable {groups outer : List Frame} {roll : Roll} {tokens rest : List Token}

theorem reads_announced {slot : Slot} {test : Test} (announced : Announced tokens test) :
    Reads ⟨groups, .test roll slot⟩ tokens ⟨groups, .suffix (slot.fill test roll) none⟩ := by
  cases announced with
  | bare isNumber => exact .cons (.equality isNumber) .nil
  | related kind isNumber => exact .cons (.relation kind) (.cons (.threshold isNumber) .nil)

/-- A test that is announced for a slot fills the slot. -/
theorem reads_slot {reading : Reading} {token : Token} (slot : Slot) {test : Test} {next : Roll}
    (step : Step reading token ⟨groups, .test roll slot⟩) (announced : Announced tokens test)
    (put : roll.put? (slot.suffix test) = some next) : Reads reading (token :: tokens) ⟨groups, .suffix next none⟩ := by
  have filled := put_slot_suffix roll slot test
  rw [put, Option.some.injEq] at filled
  rw [filled]
  exact .cons step (reads_announced announced)

theorem reads_group_suffix {pending : Option Pending} {suffix : Suffix} {next : Roll}
    (spelled : GroupSuffix tokens suffix) (put : roll.put? suffix = some next) :
    ∃ pending', Reads ⟨groups, .suffix roll pending⟩ tokens ⟨groups, .suffix next pending'⟩ := by
  cases spelled with
  | limit isLimit =>
      rw [put_limit, Option.some.injEq] at put
      exact ⟨none, put ▸ .cons (.limit isLimit) .nil⟩
  | @success _ _ relation threshold kind isNumber =>
      have filled := put_slot_suffix roll .success ⟨relation, threshold⟩
      rw [Slot.suffix, put, Option.some.injEq] at filled
      exact ⟨none, filled ▸ .cons (.success kind) (.cons (.threshold isNumber) .nil)⟩
  | failure kind announced => exact ⟨none, reads_slot .failure (.failure kind) announced put⟩
  | modifier kind isNumber value_eq => exact ⟨_, .cons (.sign kind) (.cons (.number isNumber value_eq put) .nil)⟩

theorem reads_suffix {pending : Option Pending} {suffix : Suffix} {next : Roll} (spelled : Legal roll tokens suffix)
    (put : roll.put? suffix = some next) :
    ∃ pending', Reads ⟨groups, .suffix roll pending⟩ tokens ⟨groups, .suffix next pending'⟩ := by
  cases roll with
  | group first others tail combined negative => exact reads_group_suffix spelled put
  | single single =>
      cases spelled with
      | @reroll _ _ once _ kind announced => exact ⟨none, reads_slot (.reroll once) (.reroll kind) announced put⟩
      | @explosion _ _ explosion kind announced =>
          exact ⟨none, reads_slot (.exploding explosion.kind) (.explosion kind) announced put⟩
      | order kind =>
          rw [put_order, Option.some.injEq] at put
          exact ⟨none, put ▸ .cons (.order kind) .nil⟩
      | general shared => exact reads_group_suffix shared put

theorem reads_suffixes {Item : List Token → Suffix → Prop} {suffixes : List Suffix}
    (spelled : Suffixes Item tokens suffixes) (groups : List Frame) (pending : Option Pending) {last : Roll}
    (legal : Item = Legal roll)
    (takes : roll.Takes suffixes last) :
    ∃ pending', Reads ⟨groups, .suffix roll pending⟩ tokens ⟨groups, .suffix last pending'⟩ := by
  induction spelled generalizing roll pending with
  | nil =>
      rw [Roll.takes_nil.mp takes]
      exact ⟨pending, .nil⟩
  | cons first _ ih =>
      obtain ⟨next, put, takes⟩ := Roll.takes_cons.mp takes
      obtain ⟨_, reads⟩ := reads_suffix (legal ▸ first) put
      obtain ⟨pending', reads'⟩ := ih _ (legal.trans (legal_put put).symm) takes
      exact ⟨pending', reads.trans reads'⟩

theorem reads_dice {reading : Reading} {multiplier : Whole} {single : Single} (dice : DiceOf multiplier tokens single)
    (start : ∀ token die, IsDie token die →
      Step reading token ⟨groups, .suffix (.single (.plain multiplier die)) none⟩) :
    ∃ pending, Reads reading tokens ⟨groups, .suffix (.single single) pending⟩ := by
  cases dice with
  | intro isDie spelled value =>
      have takes := Roll.takes_single.mpr ⟨single, rfl, single_from_plain.mpr value⟩
      obtain ⟨pending, reads⟩ := reads_suffixes spelled groups none rfl takes
      exact ⟨pending, .cons (start _ _ isDie) reads⟩

/-- The reading goes on from a member of the innermost group to the last one, and its group is then the given one. -/
def ReadsMembers (frame : Frame) (outer : List Frame) (member : Roll) (tokens : List Token) (group : Roll) : Prop :=
  ∀ pending, ∃ frame' last pending',
    Reads ⟨frame :: outer, .suffix member pending⟩ tokens ⟨frame' :: outer, .suffix last pending'⟩ ∧
      frame'.close last = group

theorem reads_members_cons {frame next : Frame} {member second group : Roll} (tokens : List Token)
    (start : ∀ pending, ∃ pending',
      Reads ⟨frame :: outer, .suffix member pending⟩ tokens ⟨next :: outer, .suffix second pending'⟩)
    (others : ReadsMembers next outer second rest group) :
    ReadsMembers frame outer member (tokens ++ rest) group := by
  intro pending
  obtain ⟨_, reads⟩ := start pending
  obtain ⟨frame', last, pending', reads', closed⟩ := others _
  exact ⟨frame', last, pending', reads.trans reads', closed⟩

/-- How a phrase is read. Braces are opened by the step that the context gives them. -/
def ReadBy : Phrase → List Token → Prop
  | .roll roll, tokens => ∀ groups, ∃ pending, Reads ⟨groups, .roll⟩ tokens ⟨groups, .suffix roll pending⟩
  | .braced negative group, tokens =>
    ∀ reading groups,
      (∀ token : Token, token.kind = .opening →
        Step reading token ⟨⟨token.span, negative, [], none⟩ :: groups, .roll⟩) →
      ∃ pending, Reads reading tokens ⟨groups, .suffix group pending⟩
  | .commas members, tokens =>
    ∀ (frame : Frame) outer previous, frame.joint ≠ some .sign → (members = [] → frame.joint = some .comma) →
      ReadsMembers frame outer previous tokens (frame.closeAll previous members .plain false)
  | .signs previous members, tokens =>
    ∀ (frame : Frame) outer, frame.joint ≠ some .comma →
      ReadsMembers frame outer previous tokens (frame.closeAll previous members .plain true)

theorem reads_braced {reading : Reading} {opening closing : Token} {inner after : List Token} {negative : Bool}
    {first : Roll} {others : List Roll} {suffixes : List Suffix} {tail : Tail} {combined : Bool}
    (start : Step reading opening ⟨⟨opening.span, negative, [], none⟩ :: groups, .roll⟩)
    (member : ReadBy (.roll first) inner)
    (members : ReadsMembers ⟨opening.span, negative, [], none⟩ groups first rest
      (.group first others .plain combined negative))
    (closes : closing.kind = .closing) (spelled : Suffixes GroupSuffix after suffixes) (value : TailOf suffixes tail) :
    ∃ pending, Reads reading (opening :: (inner ++ rest ++ closing :: after))
      ⟨groups, .suffix (.group first others tail combined negative) pending⟩ := by
  obtain ⟨_, readsFirst⟩ := member (⟨opening.span, negative, [], none⟩ :: groups)
  obtain ⟨frame, last, _, readsOthers, closed⟩ := members _
  have takes : (frame.close last).Takes suffixes (.group first others tail combined negative) := by
    rw [closed]
    exact Roll.takes_group.mpr ⟨tail, rfl, tail_from_plain.mpr value⟩
  have legal : GroupSuffix = Legal (frame.close last) := by rw [closed]; rfl
  obtain ⟨pending, readsSuffixes⟩ := reads_suffixes spelled groups none legal takes
  exact ⟨pending, .cons start ((readsFirst.trans readsOthers).trans (.cons (.closing closes) readsSuffixes))⟩

theorem derives_read_by {phrase : Phrase} (derives : Derives phrase tokens) : ReadBy phrase tokens := by
  induction derives with
  | dice dice => exact fun groups => reads_dice dice fun _ _ isDie => .die isDie
  | countedDice isNumber dice =>
      intro groups
      obtain ⟨pending, reads⟩ := reads_dice dice fun _ _ isDie => @Step.countedDie groups _ _ _ isDie
      exact ⟨pending, .cons (.count isNumber) reads⟩
  | group _ ih => exact fun groups => ih _ groups fun _ kind => .opening kind
  | joined opens _ _ closes spelled value member members =>
      intro reading groups start
      exact reads_braced (start _ opens) member (members _ groups (by simp)) closes spelled value
  | listed opens _ _ closes spelled value member members =>
      intro reading groups start
      exact reads_braced (start _ opens) member (members _ groups _ (by simp) (by simp)) closes spelled value
  | commasNil =>
      intro frame outer previous _ joint pending
      refine ⟨frame, previous, pending, .nil, ?_⟩
      rw [close_eq_close_all, joint rfl]
      rfl
  | @comma comma inner rest member others kind _ _ ihMember ihMembers =>
      intro frame outer previous unsigned _
      rw [← close_all_push frame previous member .comma others]
      refine reads_members_cons (comma :: inner) ?_ (ihMembers _ _ _ (by simp [Frame.push]) fun _ => rfl)
      intro pending
      obtain ⟨pending', reads⟩ := ihMember (frame.push previous .comma :: outer)
      exact ⟨pending', .cons (.comma kind unsigned) reads⟩
  | signsNil =>
      intro frame outer unlisted pending
      refine ⟨frame, _, pending, .nil, ?_⟩
      rw [close_eq_close_all, decide_eq_true unlisted]
  | @signDice sign inner _ negative previous single others kind dice _ ih =>
      intro frame outer unlisted
      rw [← close_all_push frame previous (.single single) .sign others]
      refine reads_members_cons (sign :: inner) ?_ (ih _ _ (by simp [Frame.push]))
      intro pending
      have signed : ∀ token die, IsDie token die →
          Step ⟨frame :: outer, .modifier previous negative sign.span⟩ token
            ⟨frame.push previous .sign :: outer, .suffix (.single (.plain (unit negative) die)) none⟩ := by
        intro token die isDie
        exact .signedDie isDie unlisted
      obtain ⟨pending', reads⟩ := reads_dice dice signed
      exact ⟨pending', .cons (.sign kind) reads⟩
  | @signCountedDice sign number inner _ _ _ multiplier previous single others kind isNumber value fits dice _ ih =>
      intro frame outer unlisted
      rw [← close_all_push frame previous (.single single) .sign others]
      refine reads_members_cons (sign :: number :: inner) ?_ (ih _ _ (by simp [Frame.push]))
      intro pending
      obtain ⟨changed, put⟩ := put_modifier_of_in_range fits
      -- The member gets back the modifier that it had before the number.
      have handed : ∀ token die, IsDie token die →
          Step ⟨frame :: outer, .suffix changed (some ⟨multiplier, sign.span, previous.tail.modifier⟩)⟩ token
            ⟨frame.push previous .sign :: outer, .suffix (.single (.plain multiplier die)) none⟩ := by
        intro token die isDie
        have step : Step ⟨frame :: outer, .suffix changed (some ⟨multiplier, sign.span, previous.tail.modifier⟩)⟩
            token _ := .handedDie isDie unlisted
        rwa [restore_modifier put] at step
      obtain ⟨pending', reads⟩ := reads_dice dice handed
      exact ⟨pending', .cons (.sign kind) (.cons (.number isNumber value put) reads)⟩
  | @signGroup sign inner _ _ previous group others kind _ _ ihGroup ihMembers =>
      intro frame outer unlisted
      rw [← close_all_push frame previous group .sign others]
      refine reads_members_cons (sign :: inner) ?_ (ihMembers _ _ (by simp [Frame.push]))
      intro pending
      obtain ⟨pending', reads⟩ := ihGroup ⟨frame :: outer, .modifier previous _ sign.span⟩ _
        fun _ opens => .signedOpening opens unlisted
      exact ⟨pending', .cons (.sign kind) reads⟩

end Reading

end Tabletop.Notation
