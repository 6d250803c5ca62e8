import Tabletop.Proofs.Notation.Cuts
import Tabletop.Proofs.Notation.Denotation
import Tabletop.Proofs.Notation.Faults

/-!
# What stands before a fault can be continued

No reading is ever stuck: where a die or a number is due, one can be written, and every open group can be closed. So the
text before a fault is the start of some notation that is read, and a notation that only lacks the end of a group can be
completed. The group that is blamed for this is the innermost one still open.
-/

namespace Tabletop.Notation

set_option autoImplicit false

namespace Reading

/-- The tokens take the reading to a finished roll. -/
def EndsBy (reading : Reading) (tokens : List Token) : Prop :=
  ∃ roll pending, Reads reading tokens ⟨[], .suffix roll pending⟩

theorem spelled_step {reading next : Reading}
    (token : Spelled fun tokens => ∃ token, tokens = [token] ∧ Step reading token next)
    (behind : Spelled next.EndsBy) : Spelled reading.EndsBy := by
  apply spelled_append token behind
  intro left right ofToken ends
  obtain ⟨token, rfl, step⟩ := ofToken
  obtain ⟨roll, pending, reads⟩ := ends
  exact ⟨roll, pending, .cons step reads⟩

theorem spelled_closings (groups : List Frame) (roll : Roll) (pending : Option Pending) :
    Spelled (EndsBy ⟨groups, .suffix roll pending⟩) := by
  induction groups generalizing roll pending with
  | nil => exact spelled_nil ⟨roll, pending, .nil⟩
  | cons frame outer ih =>
      apply spelled_step ?_ (ih (frame.close roll) none)
      apply spelled_mono (spelled_mark (rfl : classify '\x7d' [] = _) (by decide))
      intro tokens given
      obtain ⟨token, same, kind⟩ := given
      exact ⟨token, same, .closing kind⟩

theorem spelled_fate {reading next : Reading} (step : ∀ token, IsDie token .fate → Step reading token next)
    (behind : Spelled next.EndsBy) : Spelled reading.EndsBy := by
  apply spelled_step ?_ behind
  have nameable : Die.fate.Nameable := trivial
  apply spelled_mono (spelled_die nameable)
  intro tokens given
  obtain ⟨token, same, isDie⟩ := given
  exact ⟨token, same, step token isDie⟩

theorem spelled_zero {reading next : Reading} (step : ∀ token, IsNumber token .zero → Step reading token next)
    (behind : Spelled next.EndsBy) : Spelled reading.EndsBy := by
  apply spelled_step ?_ behind
  apply spelled_mono (spelled_number (rfl : Whole.zero.val = (0 : Nat)))
  intro tokens given
  obtain ⟨token, same, isNumber⟩ := given
  exact ⟨token, same, step token isNumber⟩

/-- Every reading can be ended, whatever was read before. -/
theorem spelled_end (reading : Reading) : Spelled reading.EndsBy := by
  obtain ⟨groups, expecting⟩ := reading
  cases expecting with
  | roll => exact spelled_fate (fun _ => .die) (spelled_closings _ _ _)
  | die multiplier => exact spelled_fate (fun _ => .countedDie) (spelled_closings _ _ _)
  | suffix roll pending => exact spelled_closings groups roll pending
  | test roll slot => exact spelled_zero (fun _ => .equality) (spelled_closings _ _ _)
  | threshold roll slot relation => exact spelled_zero (fun _ => .threshold) (spelled_closings _ _ _)
  | modifier roll negative sign =>
      -- Zero fits behind every modifier, even at the ends of the range.
      have fits : Whole.InRange (roll.tail.modifier.val + Whole.zero.val) := by
        rw [show Whole.zero.val = 0 from rfl, Int.add_zero]
        exact ⟨roll.tail.modifier.low, roll.tail.modifier.high⟩
      obtain ⟨changed, put⟩ := put_modifier_of_in_range fits
      have value : Whole.zero.val = signed negative Whole.zero.val := by cases negative <;> rfl
      exact spelled_zero (fun _ isNumber => .number isNumber value put) (spelled_closings _ _ _)

end Reading

/-- Some text behind it makes the text a notation that is read. -/
def Continuable (cs : List Char) : Prop := ∃ more roll, read (cs ++ more) = .ok roll

theorem continuable_of_reads {cs : List Char} {reading : Reading} (reads : Reading.Reads .start (words cs) reading) :
    Continuable cs := by
  obtain ⟨more, ends⟩ := Reading.spelled_end reading
  obtain ⟨stop, split⟩ := words_before_space (rfl : isSpace ' ' = true) 0 cs more
  obtain ⟨roll, pending, behind⟩ := ends stop
  refine ⟨' ' :: more, roll, read_eq_ok.mpr ⟨pending, ?_⟩⟩
  change Reading.Reads .start (wordsFrom 0 _) _
  rw [split]
  exact reads.trans behind

theorem continuable_before_word {cs : List Char} {left right : List Token} {token : Token} {reading : Reading}
    (split : words cs = left ++ token :: right) (reads : Reading.Reads .start left reading) :
    ∃ before after, cs = before ++ after ∧ byteCount before = token.span.start ∧ Continuable before := by
  obtain ⟨before, after, cut, place, lexed⟩ := words_cut split
  rw [Nat.zero_add] at place
  have reached : Reading.Reads .start (words before) reading := by rwa [words, lexed]
  exact ⟨before, after, cut, place.symm, continuable_of_reads reached⟩

namespace Token

def matchBrace (opened : List Token) (token : Token) : List Token :=
  match token.kind with
  | .opening => token :: opened
  | .closing => opened.tail
  | _ => opened

end Token

/-- The opening braces that no later brace closes, innermost first. -/
def openBraces (tokens : List Token) : List Token := tokens.foldl Token.matchBrace []

theorem open_braces_words (cs : List Char) : openBraces (words cs) = openBraces (tokens cs) := by
  rw [openBraces, words, wordsFrom, List.foldl_filter, openBraces, tokens]
  congr
  funext opened token
  cases space : token.isSpace with
  | false => rfl
  | true =>
      have kind : token.kind = .space := of_decide_eq_true space
      simp [Token.matchBrace, kind]

namespace Reading

def Matches (reading : Reading) (opened : List Token) : Prop :=
  reading.groups.map (·.opening) = opened.map (·.span)

theorem matches_step {reading next : Reading} {token : Token} {opened : List Token} (step : Step reading token next)
    (before : reading.Matches opened) : next.Matches (token.matchBrace opened) := by
  unfold Matches at *
  cases step with
  | count isNumber | equality isNumber | threshold isNumber | number isNumber =>
      simpa [Token.matchBrace, isNumber.kind] using before
  | die isDie | countedDie isDie => simpa [Token.matchBrace, isDie.kind] using before
  | handedDie isDie | signedDie isDie => simpa [Token.matchBrace, isDie.kind, Frame.push] using before
  | limit isLimit => simpa [Token.matchBrace, isLimit.kind] using before
  | reroll kind | explosion kind | order kind | success kind | failure kind | relation kind =>
      simpa [Token.matchBrace, kind] using before
  | @sign _ _ _ _ negative kind => cases negative <;> simpa [Token.matchBrace, kind, signKind] using before
  | comma kind => simpa [Token.matchBrace, kind, Frame.push] using before
  | opening kind => simpa [Token.matchBrace, kind] using before
  | signedOpening kind => simpa [Token.matchBrace, kind, Frame.push] using before
  | closing kind =>
      have behind := congrArg List.tail before
      simpa [Token.matchBrace, kind] using behind

theorem matches_reads {reading last : Reading} {tokens opened : List Token} (reads : Reads reading tokens last)
    (before : reading.Matches opened) : last.Matches (tokens.foldl Token.matchBrace opened) := by
  induction reads generalizing opened with
  | nil => exact before
  | cons step _ ih => exact ih (matches_step step before)

end Reading

variable {cs : List Char} {fault : Fault}

namespace Reading

theorem text_of_step {reading : Reading} {token : Token} (failed : reading.step token = .error fault) :
    ∃ text, fault.text? = some text := by
  cases step_blames failed with
  | token blamed => exact ⟨_, blamed.text⟩
  | sign => exact ⟨_, rfl⟩
  | multiplier => exact ⟨_, rfl⟩

theorem text_of_finish {reading : Reading} {length : Nat} (failed : reading.finish length = .error fault) :
    fault.text? ≠ none ∧ fault.span = (Token.ending length).span ∨
      fault.text? = none ∧ ∃ frame outer, reading.groups = frame :: outer ∧ fault.span = frame.opening := by
  obtain ⟨groups, expecting⟩ := reading
  unfold finish at failed
  split at failed
  · cases failed
  · cases failed
    exact .inr ⟨rfl, _, _, by assumption, rfl⟩
  · cases failed
    exact .inr ⟨rfl, _, _, by assumption, rfl⟩
  · have blamed := Token.blamed_unexpected failed
    exact .inl ⟨by simp [blamed.text], blamed.span⟩

end Reading

theorem continuable_before_fault (failed : read cs = .error fault) (inside : fault.text? ≠ none) :
    ∃ before after, cs = before ++ after ∧ byteCount before = fault.span.start ∧ Continuable before := by
  rcases read_eq_error.mp failed with ⟨left, token, right, reached, split, reads, failed⟩ | ⟨reached, reads, failed⟩
  · cases Reading.step_blames failed with
    | token blamed =>
        rw [blamed.span]
        exact continuable_before_word split reads
    | sign =>
        obtain ⟨front, sign, pending, rfl, readsFront, -, rfl⟩ := Reading.sign_of_reads reads
        rw [List.append_assoc] at split
        exact continuable_before_word split readsFront
    | multiplier =>
        obtain ⟨front, sign, number, _, _, _, _, rfl, readsFront, -, span, -, -⟩ := Reading.number_of_reads reads
        rw [List.append_assoc] at split
        rw [← span]
        exact continuable_before_word split readsFront
  · rcases Reading.text_of_finish failed with ⟨-, span⟩ | ⟨none, -⟩
    · rw [span]
      exact ⟨cs, [], (List.append_nil cs).symm, rfl, continuable_of_reads reads⟩
    · exact absurd none inside

theorem innermost_of_unterminated (failed : read cs = .error fault) (outside : fault.text? = none) :
    Continuable cs ∧ ∃ brace outer, openBraces (tokens cs) = brace :: outer ∧ brace.span = fault.span := by
  rcases read_eq_error.mp failed with ⟨_, _, _, _, _, _, failed⟩ | ⟨reached, reads, failed⟩
  · obtain ⟨text, inside⟩ := Reading.text_of_step failed
    rw [inside] at outside
    cases outside
  · rcases Reading.text_of_finish failed with ⟨inside, -⟩ | ⟨-, frame, frames, groups, span⟩
    · exact absurd outside inside
    · have matched : reached.Matches (openBraces (words cs)) := Reading.matches_reads reads rfl
      rw [Reading.Matches, groups, open_braces_words] at matched
      refine ⟨continuable_of_reads reads, ?_⟩
      cases opened : openBraces (tokens cs) with
      | nil => simp [opened] at matched
      | cons brace outer =>
          rw [opened, List.map_cons, List.map_cons, List.cons.injEq] at matched
          exact ⟨brace, outer, rfl, matched.1.symm.trans span.symm⟩

/-- The text before a fault is not to blame: with some other text behind it, it is read. Where a group is never closed,
the whole notation can be completed, and the fault is at the last brace left open when braces are matched. -/
theorem parse_fault_continuable {text : String} {fault : Fault} (failed : parse text = .error fault) :
    match fault.text? with
    | some _ =>
      ∃ before after, text = before ++ after ∧ byteCount before.toList = fault.span.start ∧
        ∃ more roll, parse (before ++ more) = .ok roll
    | none =>
      (∃ more roll, parse (text ++ more) = .ok roll) ∧
        ∃ brace outer, openBraces (tokens text.toList) = brace :: outer ∧ brace.span = fault.span := by
  have continued (before : String) (continuable : Continuable before.toList) :
      ∃ more roll, parse (before ++ more) = .ok roll := by
    obtain ⟨more, roll, done⟩ := continuable
    exact ⟨String.ofList more, roll, by rw [parse, String.toList_append, String.toList_ofList, done]⟩
  cases kind : fault.text? with
  | some quoted =>
      have inside : fault.text? ≠ none := by simp [kind]
      obtain ⟨before, after, cut, place, continuable⟩ := continuable_before_fault failed inside
      refine ⟨String.ofList before, String.ofList after, ?_, ?_, continued _ ?_⟩
      · rw [← String.ofList_append, ← cut, String.ofList_toList]
      · rw [String.toList_ofList, place]
      · rwa [String.toList_ofList]
  | none =>
      obtain ⟨continuable, innermost⟩ := innermost_of_unterminated failed kind
      exact ⟨continued text continuable, innermost⟩

/-- A sign that the group refuses, told only by the die behind it, and a brace behind a group that was closed. -/
theorem parse_fault_continuable_in_groups :
    let listed := "\x7bd6,d8-2d4\x7d"
    let nested := "\x7bd6+\x7bd8\x7d-\x7bd4 "
    parse listed = .error (.unexpectedToken ['-'] ⟨6, 7⟩) ∧
      (∃ before after, listed = before ++ after ∧ byteCount before.toList = 6 ∧
        ∃ more roll, parse (before ++ more) = .ok roll) ∧
      parse nested = .error (.unterminatedGroup ⟨9, 10⟩) ∧
      ∃ brace outer, openBraces (tokens nested.toList) = brace :: outer ∧ brace.span = ⟨9, 10⟩ := by
  have sign : parse "\x7bd6,d8-2d4\x7d" = .error (.unexpectedToken ['-'] ⟨6, 7⟩) := by cbv
  have brace : parse "\x7bd6+\x7bd8\x7d-\x7bd4 " = .error (.unterminatedGroup ⟨9, 10⟩) := by cbv
  exact ⟨sign, parse_fault_continuable sign, brace, (parse_fault_continuable brace).2⟩

end Tabletop.Notation
