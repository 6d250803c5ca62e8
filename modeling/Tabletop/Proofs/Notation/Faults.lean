import Mathlib
import Tabletop.Proofs.Notation.Places
import Tabletop.Proofs.Notation.Spacing
import Tabletop.Proofs.Notation.Steps

/-!
# Faults and the text they quote

A reading fails at one token. It blames that token, or the sign before it where a member with a sign comes in a list, or
the brace of a group that is never closed. Signs and braces are known from where they were met, but for the sign of a
number before a die: that one is told from the value, and zero has none.
-/

namespace Tabletop.Notation

set_option autoImplicit false

theorem bind_eq_error {ε α β : Type} {first : Except ε α} {next : α → Except ε β} {fault : ε} :
    first >>= next = .error fault ↔
      first = .error fault ∨ ∃ value, first = .ok value ∧ next value = .error fault := by
  cases first with
  | error other => simp [Bind.bind, Except.bind]
  | ok value => simp [Bind.bind, Except.bind]

namespace Token

/-- The fault lies in the token. -/
structure Blamed (token : Token) (fault : Fault) : Prop where
  text : fault.text? = some token.text
  span : fault.span = token.span

variable {α : Type} {token : Token} {fault : Fault}

theorem blamed_unexpected (failed : (token.unexpected : Except Fault α) = .error fault) : token.Blamed fault := by
  cases failed
  exact ⟨rfl, rfl⟩

theorem blamed_unknown_die (failed : (token.unknownDie : Except Fault α) = .error fault) : token.Blamed fault := by
  cases failed
  exact ⟨rfl, rfl⟩

theorem blamed_or_unexpected {value? : Option α} (failed : token.orUnexpected value? = .error fault) :
    token.Blamed fault := by
  cases value? with
  | none => exact blamed_unexpected failed
  | some value => cases failed

theorem blamed_without_value {β : Type} {value? : Option α} {next : α → β}
    (failed : (token.orUnexpected value? >>= fun value => .ok (next value)) = .error fault) : token.Blamed fault := by
  rcases bind_eq_error.mp failed with unread | ⟨value, -, done⟩
  · exact blamed_or_unexpected unread
  · cases done

theorem blamed_signed_number {negative : Bool} (failed : token.signedNumber negative = .error fault) :
    token.Blamed fault := by
  rcases bind_eq_error.mp failed with number | ⟨size, -, negated⟩
  · exact blamed_or_unexpected number
  · split at negated
    · exact blamed_or_unexpected negated
    · cases negated

theorem blamed_die (failed : token.die = .error fault) : token.Blamed fault := by
  dsimp only [Token.die] at failed
  split at failed
  · split at failed
    · exact blamed_unknown_die failed
    · exact blamed_or_unexpected failed
  · split at failed
    · cases failed
    · exact blamed_unknown_die failed

end Token

namespace Reading

/-- What a step blames on a token. In a group with commas a sign before a member is at fault, not the member. -/
inductive Blames : Reading → Token → Fault → Prop where
  | token {reading : Reading} {token : Token} {fault : Fault} (blamed : token.Blamed fault) :
      Blames reading token fault
  | sign {frame : Frame} {outer : List Frame} {roll : Roll} {negative : Bool} {sign : Span} {token : Token}
      (listed : frame.joint = some .comma) (kind : token.kind = .die ∨ token.kind = .opening) :
      Blames ⟨frame :: outer, .modifier roll negative sign⟩ token (.unexpectedToken [signMark negative] sign)
  | multiplier {frame : Frame} {outer : List Frame} {roll : Roll} {pending : Pending} {token : Token}
      (listed : frame.joint = some .comma) (kind : token.kind = .die) :
      Blames ⟨frame :: outer, .suffix roll (some pending)⟩ token
        (.unexpectedToken [signMark pending.value.isNegative] pending.sign)

variable {token : Token} {fault : Fault}

theorem begin_blames {groups : List Frame} {multiplier : Whole}
    (failed : begin groups multiplier token = .error fault) : token.Blamed fault := by
  unfold begin at failed
  split at failed
  · rcases bind_eq_error.mp failed with die | ⟨_, -, done⟩
    · exact Token.blamed_die die
    · cases done
  · cases failed
  · exact Token.blamed_unexpected failed

theorem hand_blames {groups : List Frame} {member : Roll} {value : Whole} {sign : Span}
    (failed : hand groups member value sign token = .error fault) :
    token.Blamed fault ∨ ∃ frame outer, groups = frame :: outer ∧ frame.joint = some .comma ∧
      fault = .unexpectedToken [signMark value.isNegative] sign := by
  unfold hand at failed
  split at failed
  · exact .inl (Token.blamed_unexpected failed)
  · split at failed
    · cases failed
      exact .inr ⟨_, _, rfl, ‹_›, rfl⟩
    · exact .inl (begin_blames failed)

private theorem suffix_blames {groups : List Frame} {roll : Roll} {pending : Option Pending}
    (failed : suffix groups roll pending token = .error fault) :
    Blames ⟨groups, .suffix roll pending⟩ token fault := by
  unfold suffix at failed
  split at failed
  case h_1 | h_2 | h_3 =>
    cases roll with
    | single single => cases failed
    | group => exact .token (Token.blamed_unexpected failed)
  case h_4 => exact .token (Token.blamed_without_value failed)
  case h_5 | h_6 | h_7 | h_8 => cases failed
  case h_9 =>
    cases groups with
    | nil => exact .token (Token.blamed_unexpected failed)
    | cons frame outer => cases failed
  case h_10 =>
    cases groups with
    | nil => exact .token (Token.blamed_unexpected failed)
    | cons frame outer =>
        dsimp only at failed
        split at failed
        · exact .token (Token.blamed_unexpected failed)
        · cases failed
  case h_11 kind =>
    cases pending with
    | none => exact .token (Token.blamed_unexpected failed)
    | some pending =>
        rcases hand_blames failed with blamed | ⟨frame, outer, rfl, listed, rfl⟩
        · exact .token blamed
        · exact .multiplier listed kind
  case h_12 => exact .token (Token.blamed_unexpected failed)

theorem step_blames {reading : Reading} (failed : reading.step token = .error fault) :
    Blames reading token fault := by
  obtain ⟨groups, expecting⟩ := reading
  cases expecting with
  | roll =>
      dsimp only [step] at failed
      split at failed
      · exact .token (Token.blamed_without_value failed)
      · exact .token (begin_blames failed)
  | die multiplier =>
      dsimp only [step] at failed
      split at failed
      · exact .token (begin_blames failed)
      · exact .token (Token.blamed_unexpected failed)
  | suffix roll pending => exact suffix_blames failed
  | test roll slot =>
      dsimp only [step] at failed
      split at failed
      · cases failed
      · exact .token (Token.blamed_without_value failed)
      · exact .token (Token.blamed_unexpected failed)
  | threshold roll slot relation =>
      dsimp only [step] at failed
      split at failed
      · exact .token (Token.blamed_without_value failed)
      · exact .token (Token.blamed_unexpected failed)
  | modifier roll negative sign =>
      have handed (kind : token.kind = .die ∨ token.kind = .opening)
          (failed : hand groups roll (unit negative) sign token = .error fault) :
          Blames ⟨groups, .modifier roll negative sign⟩ token fault := by
        rcases hand_blames failed with blamed | ⟨frame, outer, rfl, listed, rfl⟩
        · exact .token blamed
        · rw [unit_is_negative]
          exact .sign listed kind
      dsimp only [step] at failed
      split at failed
      · rcases bind_eq_error.mp failed with number | ⟨_, -, failed⟩
        · exact .token (Token.blamed_signed_number number)
        · exact .token (Token.blamed_without_value failed)
      · exact handed (.inl ‹_›) failed
      · exact handed (.inr ‹_›) failed
      · exact .token (Token.blamed_unexpected failed)

theorem fold_eq_error {reading : Reading} {tokens : List Token} :
    tokens.foldlM Reading.step reading = .error fault ↔
      ∃ before token after reached, tokens = before ++ token :: after ∧ Reads reading before reached ∧
        reached.step token = .error fault := by
  induction tokens generalizing reading with
  | nil => simp [Pure.pure, Except.pure]
  | cons token tokens ih =>
      rw [List.foldlM_cons, bind_eq_error]
      constructor
      · intro given
        rcases given with failed | ⟨next, done, failed⟩
        · exact ⟨[], token, tokens, reading, rfl, .nil, failed⟩
        · obtain ⟨before, culprit, after, reached, rfl, reads, failed⟩ := ih.mp failed
          exact ⟨token :: before, culprit, after, reached, rfl, .cons (step_eq_ok.mp done) reads, failed⟩
      · intro given
        obtain ⟨before, culprit, after, reached, split, reads, failed⟩ := given
        cases reads with
        | nil =>
            cases split
            exact .inl failed
        | cons step reads =>
            cases split
            exact .inr ⟨_, step_eq_ok.mpr step, ih.mpr ⟨_, culprit, after, reached, rfl, reads, failed⟩⟩

theorem finish_eq_error {reading : Reading} {length : Nat} (failed : reading.finish length = .error fault) :
    (Token.ending length).Blamed fault ∨ ∃ frame ∈ reading.groups, fault = .unterminatedGroup frame.opening := by
  obtain ⟨groups, expecting⟩ := reading
  cases groups with
  | nil =>
      cases expecting with
      | suffix => cases failed
      | _ => exact .inl (Token.blamed_unexpected failed)
  | cons frame outer =>
      cases expecting with
      | roll | suffix =>
          cases failed
          exact .inr ⟨frame, List.mem_cons_self, rfl⟩
      | _ => exact .inl (Token.blamed_unexpected failed)

theorem last_step {reading last : Reading} {tokens : List Token} (reads : Reads reading tokens last) :
    tokens = [] ∧ last = reading ∨
      ∃ front token middle, tokens = front ++ [token] ∧ Reads reading front middle ∧ Step middle token last := by
  induction reads with
  | nil => exact .inl ⟨rfl, rfl⟩
  | @cons reading next last token tokens step _ ih =>
      rcases ih with ⟨rfl, rfl⟩ | ⟨front, other, middle, rfl, reads, last⟩
      · exact .inr ⟨[], token, reading, rfl, .nil, step⟩
      · exact .inr ⟨token :: front, other, middle, rfl, .cons step reads, last⟩

theorem sign_of_reads {tokens : List Token} {groups : List Frame} {roll : Roll} {negative : Bool} {span : Span}
    (reads : Reads .start tokens ⟨groups, .modifier roll negative span⟩) :
    ∃ before sign pending, tokens = before ++ [sign] ∧ Reads .start before ⟨groups, .suffix roll pending⟩ ∧
      sign.kind = signKind negative ∧ sign.span = span := by
  rcases last_step reads with ⟨-, same⟩ | ⟨before, sign, middle, rfl, readsBefore, step⟩
  · cases same
  · cases step with
    | sign kind => exact ⟨before, sign, _, rfl, readsBefore, kind, rfl⟩

theorem number_of_reads {tokens : List Token} {groups : List Frame} {changed : Roll} {pending : Pending}
    (reads : Reads .start tokens ⟨groups, .suffix changed (some pending)⟩) :
    ∃ before sign number negative size roll earlier, tokens = before ++ [sign, number] ∧
      Reads .start before ⟨groups, .suffix roll earlier⟩ ∧ sign.kind = signKind negative ∧
      sign.span = pending.sign ∧ IsNumber number size ∧ pending.value.val = signed negative size.val := by
  rcases last_step reads with ⟨-, same⟩ | ⟨front, number, middle, rfl, readsFront, step⟩
  · cases same
  · cases step with
    | number isNumber value_eq put =>
        obtain ⟨before, sign, earlier, rfl, readsBefore, kind, span⟩ := sign_of_reads readsFront
        exact ⟨before, sign, number, _, _, _, earlier, List.append_assoc _ _ _, readsBefore, kind, span, isNumber,
          value_eq⟩

/-- Every group that is open was opened by one of the tokens. -/
def Opened (tokens : List Token) (reading : Reading) : Prop :=
  ∀ frame ∈ reading.groups, ∃ token ∈ tokens, token.kind = .opening ∧ token.span = frame.opening

theorem opening_of_step {reading next : Reading} {token : Token} (step : Step reading token next) :
    ∀ frame ∈ next.groups, (∃ kept ∈ reading.groups, kept.opening = frame.opening) ∨
      token.kind = .opening ∧ token.span = frame.opening := by
  have same {frames : List Frame} (frame : Frame) (found : frame ∈ frames) :
      ∃ kept ∈ frames, kept.opening = frame.opening := ⟨frame, found, rfl⟩
  have pushed {frame : Frame} {outer : List Frame} (member : Roll) (joint : Joint) (other : Frame)
      (found : other ∈ frame.push member joint :: outer) : ∃ kept ∈ frame :: outer, kept.opening = other.opening := by
    rcases List.mem_cons.mp found with rfl | found
    · exact ⟨frame, List.mem_cons_self, rfl⟩
    · exact ⟨other, List.mem_cons_of_mem _ found, rfl⟩
  intro frame found
  cases step with
  | opening kind =>
      rcases List.mem_cons.mp found with rfl | found
      · exact .inr ⟨kind, rfl⟩
      · exact .inl (same frame found)
  | closing => exact .inl (same frame (List.mem_cons_of_mem _ found))
  | comma => exact .inl (pushed _ _ frame found)
  | handedDie => exact .inl (pushed _ _ frame found)
  | signedDie => exact .inl (pushed _ _ frame found)
  | signedOpening kind =>
      rcases List.mem_cons.mp found with rfl | found
      · exact .inr ⟨kind, rfl⟩
      · exact .inl (pushed _ _ frame found)
  | _ => exact .inl (same frame found)

theorem opened_step {reading next : Reading} {token : Token} {tokens : List Token} (step : Step reading token next)
    (opened : reading.Opened tokens) : next.Opened (tokens ++ [token]) := by
  intro frame found
  rcases opening_of_step step frame found with ⟨kept, found, same⟩ | ⟨kind, span⟩
  · obtain ⟨brace, read, kind, span⟩ := opened kept found
    exact ⟨brace, List.mem_append_left _ read, kind, span.trans same⟩
  · exact ⟨token, List.mem_append_right _ (List.mem_singleton_self _), kind, span⟩

theorem opened_reads {reading last : Reading} {tokens more : List Token} (reads : Reads reading more last)
    (opened : reading.Opened tokens) : last.Opened (tokens ++ more) := by
  induction reads generalizing tokens with
  | nil => rwa [List.append_nil]
  | cons step _ ih =>
      have behind := ih (opened_step step opened)
      rwa [List.append_assoc] at behind

theorem opened_of_reads {last : Reading} {tokens : List Token} (reads : Reads .start tokens last) :
    last.Opened tokens := by
  have start : start.Opened [] := List.forall_mem_nil _
  exact opened_reads reads start

end Reading

theorem read_eq_error {cs : List Char} {fault : Fault} :
    read cs = .error fault ↔
      (∃ before token after reached, words cs = before ++ token :: after ∧ Reading.Reads .start before reached ∧
        reached.step token = .error fault) ∨
      ∃ reached, Reading.Reads .start (words cs) reached ∧ reached.finish (byteCount cs) = .error fault := by
  rw [read, bind_eq_error]
  exact or_congr Reading.fold_eq_error (exists_congr fun _ => and_congr_left' Reading.fold_eq_ok)

theorem placed_of_word {cs : List Char} {token : Token} (found : token ∈ words cs) : token.Placed cs :=
  placed_of_mem (List.mem_of_mem_filter found)

namespace Fault

/-- What the fault quotes stands at its span: the text at fault, which is empty at the end alone, or the brace. -/
structure Faithful (cs : List Char) (fault : Fault) : Prop where
  quoted : Quotes cs fault.span (fault.text?.getD ['\x7b'])
  ending : fault.text? = some [] → fault.span = ⟨byteCount cs, byteCount cs⟩

variable {cs : List Char} {fault : Fault}

theorem faithful_of_blamed {token : Token} (placed : token.Placed cs) (blamed : token.Blamed fault) :
    fault.Faithful cs := by
  constructor
  · rw [blamed.text, blamed.span]
    exact placed.quoted
  · intro empty
    rw [blamed.text, Option.some.injEq] at empty
    exact absurd empty placed.written

theorem faithful_of_blamed_end (blamed : (Token.ending (byteCount cs)).Blamed fault) : fault.Faithful cs := by
  constructor
  · rw [blamed.text, blamed.span]
    exact quotes_ending cs
  · exact fun _ => blamed.span

theorem sign_quoted {sign : Token} {negative : Bool} (placed : sign.Placed cs) (kind : sign.kind = signKind negative) :
    Quotes cs sign.span [signMark negative] := by
  have marked := placed.mark (signMark negative) (kind ▸ sign_kind_mark negative)
  exact marked ▸ placed.quoted

theorem faithful_of_sign {sign : Token} {negative : Bool} (placed : sign.Placed cs)
    (kind : sign.kind = signKind negative) : (unexpectedToken [signMark negative] sign.span).Faithful cs where
  quoted := sign_quoted placed kind
  ending empty := by cases empty

theorem faithful_of_brace {brace : Token} (placed : brace.Placed cs) (kind : brace.kind = .opening) :
    (unterminatedGroup brace.span).Faithful cs where
  quoted := by
    have marked := placed.mark '\x7b' (by rw [kind]; rfl)
    exact marked ▸ placed.quoted
  ending empty := by cases empty

end Fault

theorem zero_of_sign_lost {negative : Bool} {size value : Whole} (nonnegative : 0 ≤ size.val)
    (same : value.val = signed negative size.val) (lost : value.isNegative ≠ negative) :
    negative = true ∧ size = .zero := by
  cases negative with
  | false =>
      have kept : value.val = size.val := same
      exact absurd (decide_eq_false (by omega)) lost
  | true =>
      have negated : value.val = -size.val := same
      have high : ¬ value.val < 0 := fun low => lost (decide_eq_true low)
      exact ⟨rfl, Whole.ext (by change size.val = 0; omega)⟩

/-- In a group with commas a zero under this minus stands behind a member and before a die. -/
def MinusZero (cs : List Char) (sign : Token) : Prop :=
  ∃ before zero die after frame outer roll pending, words cs = before ++ sign :: zero :: die :: after ∧
    Reading.Reads .start before ⟨frame :: outer, .suffix roll pending⟩ ∧ frame.joint = some .comma ∧
    sign.kind = .minus ∧ IsNumber zero .zero ∧ die.kind = .die

variable {cs : List Char} {fault : Fault} {sign : Token}

theorem quotes_minus (minusZero : MinusZero cs sign) : Quotes cs sign.span ['-'] := by
  obtain ⟨before, zero, die, after, frame, outer, roll, pending, split, -, -, kind, -, -⟩ := minusZero
  have found : sign ∈ words cs := by
    rw [split]
    exact List.mem_append_right _ List.mem_cons_self
  have minus : sign.kind = signKind true := kind
  exact Fault.sign_quoted (placed_of_word found) minus

theorem read_minus_zero (minusZero : MinusZero cs sign) :
    read cs = .error (.unexpectedToken ['+'] sign.span) := by
  obtain ⟨before, zero, die, after, frame, outer, roll, pending, split, reads, listed, kind, isNumber, isDie⟩ :=
    minusZero
  have minus : sign.kind = signKind true := kind
  have fits : Whole.InRange (roll.tail.modifier.val + 0) := by
    rw [Int.add_zero]
    exact ⟨roll.tail.modifier.low, roll.tail.modifier.high⟩
  obtain ⟨changed, put⟩ : ∃ changed, roll.put? (.modifier .zero) = some changed := put_modifier_of_in_range fits
  have number : Reading.Reads ⟨frame :: outer, .suffix roll pending⟩ [sign, zero] _ :=
    .cons (.sign minus) (.cons (.number isNumber rfl put) .nil)
  refine read_eq_error.mpr (.inl ⟨before ++ [sign, zero], die, after, _, ?_, reads.trans number, ?_⟩)
  · rw [split, List.append_assoc]
    rfl
  · simp [Reading.step, Reading.suffix, isDie, Reading.hand, listed, Whole.isNegative, Whole.zero]

theorem not_faithful_of_minus_zero (minusZero : MinusZero cs sign) (failed : read cs = .error fault) :
    ¬ fault.Faithful cs := by
  intro faithful
  rw [read_minus_zero minusZero, Except.error.injEq] at failed
  subst failed
  have same : ['-'] = ['+'] := quotes_unique (quotes_minus minusZero) faithful.quoted
  cases same

theorem faithful_or_minus_zero (failed : read cs = .error fault) :
    fault.Faithful cs ∨ ∃ sign, MinusZero cs sign := by
  rcases read_eq_error.mp failed with ⟨before, token, after, reached, split, reads, failed⟩ | ⟨reached, reads, failed⟩
  · have placed : ∀ word ∈ before ++ token :: after, word.Placed cs := fun word found =>
      placed_of_word (split ▸ found)
    cases Reading.step_blames failed with
    | token blamed =>
        exact .inl (Fault.faithful_of_blamed (placed token (List.mem_append_right _ List.mem_cons_self)) blamed)
    | sign =>
        obtain ⟨before, sign, _, rfl, _, kind, rfl⟩ := Reading.sign_of_reads reads
        exact .inl (Fault.faithful_of_sign (placed sign (by simp)) kind)
    | @multiplier frame outer roll pending _ listed die =>
        obtain ⟨before, sign, number, negative, size, roll, earlier, rfl, reads, kind, span, isNumber, value⟩ :=
          Reading.number_of_reads reads
        rw [← span]
        by_cases kept : pending.value.isNegative = negative
        · rw [kept]
          exact .inl (Fault.faithful_of_sign (placed sign (by simp)) kind)
        · obtain ⟨rfl, rfl⟩ := zero_of_sign_lost (number_nonnegative isNumber) value kept
          rw [List.append_assoc] at split
          exact .inr ⟨sign, before, number, token, after, frame, outer, roll, earlier, split, reads, listed, kind,
            isNumber, die⟩
  · rcases Reading.finish_eq_error failed with blamed | ⟨frame, found, rfl⟩
    · exact .inl (Fault.faithful_of_blamed_end blamed)
    · obtain ⟨brace, read, kind, span⟩ := Reading.opened_of_reads reads frame found
      exact .inl (span ▸ Fault.faithful_of_brace (placed_of_word read) kind)

/-- The span of a fault is cut out of the notation between characters, and the fault quotes what stands there, unless it
is the sign of a zero. -/
theorem parse_fault_quotes {text : String} {fault : Fault} (failed : parse text = .error fault) :
    fault.span.start ≤ fault.span.stop ∧ fault.span.stop ≤ byteCount text.toList ∧
      (∃ quoted, Quotes text.toList fault.span quoted) ∧
      (fault.Faithful text.toList ↔ ¬ ∃ sign, MinusZero text.toList sign) := by
  have quotes : ∃ quoted, Quotes text.toList fault.span quoted := by
    rcases faithful_or_minus_zero failed with faithful | ⟨sign, minusZero⟩
    · exact ⟨_, faithful.quoted⟩
    · have same := (read_minus_zero minusZero).symm.trans failed
      cases same
      exact ⟨_, quotes_minus minusZero⟩
  obtain ⟨quoted, stands⟩ := quotes
  obtain ⟨ordered, inside⟩ := quotes_bounds stands
  refine ⟨ordered, inside, ⟨quoted, stands⟩, ?_, ?_⟩
  · intro faithful given
    obtain ⟨sign, minusZero⟩ := given
    exact not_faithful_of_minus_zero minusZero failed faithful
  · intro none
    exact (faithful_or_minus_zero failed).resolve_right none

/-- The minus before a two is kept. -/
theorem parse_fault_quotes_minus :
    let fault := Fault.unexpectedToken ['-'] ⟨6, 7⟩
    parse "\x7bd6,d8-2d4\x7d" = .error fault ∧ fault.Faithful "\x7bd6,d8-2d4\x7d".toList := by
  have failed : parse "\x7bd6,d8-2d4\x7d" = .error (.unexpectedToken ['-'] ⟨6, 7⟩) := by cbv
  refine ⟨failed, (parse_fault_quotes failed).2.2.2.mpr ?_⟩
  intro given
  obtain ⟨sign, minusZero⟩ := given
  cases (read_minus_zero minusZero).symm.trans failed

/-- The minus before a zero is reported as a plus. -/
theorem minus_before_zero_misquoted :
    let text := "\x7bd6,d8-0d4\x7d"
    parse text = .error (.unexpectedToken ['+'] ⟨6, 7⟩) ∧ Quotes text.toList ⟨6, 7⟩ ['-'] ∧
      ¬ Quotes text.toList ⟨6, 7⟩ ['+'] := by
  have minus : Quotes "\x7bd6,d8-0d4\x7d".toList ⟨6, 7⟩ ['-'] :=
    ⟨"\x7bd6,d8".toList, "0d4\x7d".toList, by decide, by decide⟩
  refine ⟨by cbv, minus, ?_⟩
  intro plus
  cases quotes_unique minus plus

end Tabletop.Notation
