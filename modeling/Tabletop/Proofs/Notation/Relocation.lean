import Mathlib
import Tabletop.Proofs.Notation.Spacing
import Tabletop.Notation.Reading

/-!
# Spans are only ever reported

A reading carries spans along and looks at none of them: where tokens are moved, the same comes of them, and the fault
is moved as well. So only the kinds and texts of the words count. Two notations that share these denote the same roll,
or they fail in the same way at the same word.
-/

namespace Tabletop.Notation

set_option autoImplicit false

section

variable (move : Span → Span)

def Token.moved (token : Token) : Token := { token with span := move token.span }

def Pending.moved (pending : Pending) : Pending := { pending with sign := move pending.sign }

def Frame.moved (frame : Frame) : Frame := { frame with opening := move frame.opening }

def Expecting.moved : Expecting → Expecting
  | .suffix unfinished pending => .suffix unfinished (pending.map (·.moved move))
  | .modifier unfinished negative sign => .modifier unfinished negative (move sign)
  | expecting => expecting

def Reading.moved (reading : Reading) : Reading :=
  ⟨reading.groups.map (·.moved move), reading.expecting.moved move⟩

def Fault.moved : Fault → Fault
  | unexpectedToken text span => unexpectedToken text (move span)
  | unknownDie text span => unknownDie text (move span)
  | unterminatedGroup opening => unterminatedGroup (move opening)

def relocated {α β : Type} (place : α → β) : Except Fault α → Except Fault β
  | .ok value => .ok (place value)
  | .error fault => .error (fault.moved move)

end

variable {move : Span → Span} {α β γ δ : Type}

theorem relocated_bind {place : α → β} {place' : γ → δ} (first : Except Fault α) {next : α → Except Fault γ}
    {next' : β → Except Fault δ} (same : ∀ value, next' (place value) = relocated move place' (next value)) :
    relocated move place first >>= next' = relocated move place' (first >>= next) := by
  cases first with
  | error fault => rfl
  | ok value => exact same value

namespace Token

theorem or_unexpected_moved (token : Token) (value? : Option α) :
    (token.moved move).orUnexpected value? = relocated move id (token.orUnexpected value?) := by
  cases value? <;> rfl

theorem number_moved (token : Token) : (token.moved move).number = relocated move id token.number :=
  or_unexpected_moved token _

theorem signed_number_moved (negative : Bool) (token : Token) :
    (token.moved move).signedNumber negative = relocated move id (token.signedNumber negative) := by
  rw [signedNumber, number_moved]
  apply relocated_bind
  intro value
  cases negative with
  | false => rfl
  | true => exact or_unexpected_moved token _

theorem die_moved (token : Token) : (token.moved move).die = relocated move id token.die := by
  unfold die
  dsimp only [moved]
  split
  · split
    · rfl
    · exact or_unexpected_moved token _
  · split <;> rfl

theorem limit_moved (kind : Limit.Kind) (token : Token) :
    (token.moved move).limit kind = relocated move id (token.limit kind) :=
  or_unexpected_moved token _

@[simp] theorem kind_moved (token : Token) : (token.moved move).kind = token.kind := rfl

@[simp] theorem text_moved (token : Token) : (token.moved move).text = token.text := rfl

@[simp] theorem span_moved (token : Token) : (token.moved move).span = move token.span := rfl

end Token

namespace Reading

theorem begin_moved (groups : List Frame) (multiplier : Whole) (token : Token) :
    begin (groups.map (·.moved move)) multiplier (token.moved move) =
      relocated move (·.moved move) (begin groups multiplier token) := by
  unfold begin
  simp only [Token.kind_moved, Token.die_moved]
  split
  · exact relocated_bind _ fun die => rfl
  · rfl
  · rfl

theorem hand_moved (groups : List Frame) (member : Roll) (value : Whole) (sign : Span) (token : Token) :
    hand (groups.map (·.moved move)) member value (move sign) (token.moved move) =
      relocated move (·.moved move) (hand groups member value sign token) := by
  cases groups with
  | nil => rfl
  | cons frame outer =>
      have begun := @begin_moved move (frame.push member .sign :: outer) value token
      by_cases listed : frame.joint = some .comma
      · simp [hand, Frame.moved, listed, relocated, Fault.moved]
      · simpa [hand, Frame.moved, Frame.push, listed] using begun

theorem after_number_moved (groups : List Frame) (roll : Roll) (negative : Bool) (sign : Span) (token : Token) :
    afterNumber (groups.map (·.moved move)) roll negative (move sign) (token.moved move) =
      relocated move (·.moved move) (afterNumber groups roll negative sign token) := by
  unfold afterNumber
  simp only [Token.signed_number_moved, Token.or_unexpected_moved]
  apply relocated_bind
  intro value
  exact relocated_bind _ fun modifier => rfl

theorem suffix_moved (groups : List Frame) (roll : Roll) (pending : Option Pending) (token : Token) :
    suffix (groups.map (·.moved move)) roll (pending.map (·.moved move)) (token.moved move) =
      relocated move (·.moved move) (suffix groups roll pending token) := by
  unfold suffix
  simp only [Token.kind_moved, Token.limit_moved]
  split
  case h_1 | h_2 | h_3 => cases roll <;> rfl
  case h_4 => exact relocated_bind _ fun limit => rfl
  case h_9 => cases groups <;> rfl
  case h_10 =>
    cases groups with
    | nil => rfl
    | cons frame outer =>
        by_cases signed : frame.joint = some .sign
        · simp [Frame.moved, signed, relocated, Fault.moved, Token.unexpected]
        · simp [Frame.moved, signed, relocated, Frame.push, moved, Expecting.moved]
  case h_11 =>
    cases pending with
    | none => rfl
    | some pending => exact hand_moved groups _ pending.value pending.sign token
  all_goals rfl

/-- A moved token takes a moved reading where the token takes the reading, moved as well. -/
theorem step_moved (reading : Reading) (token : Token) :
    (reading.moved move).step (token.moved move) = relocated move (·.moved move) (reading.step token) := by
  obtain ⟨groups, expecting⟩ := reading
  cases expecting with
  | suffix roll pending => exact suffix_moved groups roll pending token
  | roll =>
      simp only [step, moved, Expecting.moved, Token.kind_moved, Token.number_moved]
      split
      · exact relocated_bind _ fun multiplier => rfl
      · exact begin_moved groups .one token
  | die multiplier =>
      simp only [step, moved, Expecting.moved, Token.kind_moved]
      split
      · exact begin_moved groups multiplier token
      · rfl
  | test roll slot =>
      simp only [step, moved, Expecting.moved, Token.kind_moved, Token.number_moved]
      split
      · rfl
      · exact relocated_bind _ fun threshold => rfl
      · rfl
  | threshold roll slot relation =>
      simp only [step, moved, Expecting.moved, Token.kind_moved, Token.number_moved]
      split
      · exact relocated_bind _ fun threshold => rfl
      · rfl
  | modifier roll negative sign =>
      simp only [step, moved, Expecting.moved, Token.kind_moved]
      split
      · exact after_number_moved groups roll negative sign token
      · exact hand_moved groups roll _ sign token
      · exact hand_moved groups roll _ sign token
      · rfl

theorem fold_moved (reading : Reading) (tokens : List Token) :
    (tokens.map (·.moved move)).foldlM step (reading.moved move) =
      relocated move (·.moved move) (tokens.foldlM step reading) := by
  induction tokens generalizing reading with
  | nil => rfl
  | cons token tokens ih =>
      rw [List.map_cons, List.foldlM_cons, List.foldlM_cons, step_moved]
      exact relocated_bind _ ih

theorem finish_moved (reading : Reading) {length length' : Nat}
    (ending : (Token.ending length).moved move = Token.ending length') :
    (reading.moved move).finish length' = relocated move id (reading.finish length) := by
  obtain ⟨groups, expecting⟩ := reading
  have unexpected : (Token.ending length').unexpected = relocated move (id : Roll → Roll)
      (Token.ending length).unexpected := by
    rw [← ending]
    rfl
  cases groups <;> cases expecting <;> first | exact unexpected | rfl

end Reading

def Token.wording (word : Token) : Kind × List Char := (word.kind, word.text)

/-- What the words say by themselves. -/
def wording (cs : List Char) : List (Kind × List Char) := (words cs).map fun word => (word.kind, word.text)

/-- The words with their numbers in the place of their spans. -/
def numbered (wording : List (Kind × List Char)) : List Token :=
  wording.mapIdx fun i word => ⟨word.1, word.2, ⟨i, i⟩⟩

def placeOf (cs : List Char) (number : Span) : Span :=
  ((words cs)[number.start]?.map (·.span)).getD (Token.ending (byteCount cs)).span

theorem numbered_moved (tokens : List Token) (last : Span) :
    (numbered (tokens.map Token.wording)).map
      (·.moved fun number => (tokens[number.start]?.map (·.span)).getD last) = tokens := by
  apply List.ext_getElem
  · simp [numbered]
  · intro i _ inside
    simp [numbered, Token.wording, Token.moved, inside]

theorem numbered_placed (cs : List Char) : (numbered (wording cs)).map (·.moved (placeOf cs)) = words cs :=
  numbered_moved (words cs) _

/-- A notation is read as its numbered words are, with their spans in the place of their numbers. -/
theorem read_eq_relocated (cs : List Char) :
    read cs = relocated (placeOf cs) id
      ((numbered (wording cs)).foldlM Reading.step .start >>= (·.finish (wording cs).length)) := by
  have fold := @Reading.fold_moved (placeOf cs) .start (numbered (wording cs))
  rw [numbered_placed] at fold
  change (words cs).foldlM Reading.step Reading.start >>= _ = _
  rw [show Reading.start = Reading.start.moved (placeOf cs) from rfl, fold]
  apply relocated_bind
  intro reading
  apply Reading.finish_moved
  simp [Token.moved, Token.ending, placeOf, wording]

/-- The spans are those of the same word in both notations, or both are the end. -/
inductive SamePlace (left right : List Char) : Span → Span → Prop where
  | word {number : Nat} {word word' : Token} (found : (words left)[number]? = some word)
      (found' : (words right)[number]? = some word') : SamePlace left right word.span word'.span
  | ending : SamePlace left right (Token.ending (byteCount left)).span (Token.ending (byteCount right)).span

/-- The same roll, or the same fault but for its place among the bytes. -/
inductive Agree (left right : List Char) : Except Fault Roll → Except Fault Roll → Prop where
  | roll (roll : Roll) : Agree left right (.ok roll) (.ok roll)
  | unexpectedToken (text : List Char) {span span' : Span} (place : SamePlace left right span span') :
      Agree left right (.error (.unexpectedToken text span)) (.error (.unexpectedToken text span'))
  | unknownDie (text : List Char) {span span' : Span} (place : SamePlace left right span span') :
      Agree left right (.error (.unknownDie text span)) (.error (.unknownDie text span'))
  | unterminatedGroup {span span' : Span} (place : SamePlace left right span span') :
      Agree left right (.error (.unterminatedGroup span)) (.error (.unterminatedGroup span'))

theorem same_place_of_number {left right : List Char} (same : wording left = wording right) (number : Span) :
    SamePlace left right (placeOf left number) (placeOf right number) := by
  have length := congrArg List.length same
  simp only [wording, List.length_map] at length
  cases found : (words left)[number.start]? with
  | none =>
      have found' : (words right)[number.start]? = none := by
        rw [List.getElem?_eq_none_iff] at found ⊢
        omega
      simp only [placeOf, found, found']
      exact .ending
  | some word =>
      have inside : number.start < (words right).length := by
        have inside := (List.getElem?_eq_some_iff.mp found).1
        omega
      have found' := List.getElem?_eq_getElem inside
      simp only [placeOf, found, found']
      exact .word found found'

/-- White space between words says nothing: only the kinds and texts of the words count, for the roll as for the fault
and the word it is found at. -/
theorem parse_agree_of_wording {left right : String} (same : wording left.toList = wording right.toList) :
    Agree left.toList right.toList (parse left) (parse right) := by
  have place := same_place_of_number same
  rw [parse, parse, read_eq_relocated left.toList, read_eq_relocated right.toList, same]
  cases (numbered (wording right.toList)).foldlM Reading.step .start >>=
      (·.finish (wording right.toList).length) with
  | ok roll => exact .roll roll
  | error fault =>
      cases fault with
      | unexpectedToken text span => exact .unexpectedToken text (place span)
      | unknownDie text span => exact .unknownDie text (place span)
      | unterminatedGroup span => exact .unterminatedGroup (place span)

theorem parse_agree_of_wording_at_sign :
    let tight := "\x7bd6,d8-2d4\x7d"
    let loose := "\x7b d6 ,\td8 - 2 d4\n\x7d"
    wording tight.toList = wording loose.toList ∧
      parse tight = .error (.unexpectedToken ['-'] ⟨6, 7⟩) ∧
      parse loose = .error (.unexpectedToken ['-'] ⟨10, 11⟩) ∧
      SamePlace tight.toList loose.toList ⟨6, 7⟩ ⟨10, 11⟩ := by
  intro tight loose
  have same : wording tight.toList = wording loose.toList := by cbv
  have sign : parse tight = .error (.unexpectedToken ['-'] ⟨6, 7⟩) := by cbv
  have sign' : parse loose = .error (.unexpectedToken ['-'] ⟨10, 11⟩) := by cbv
  have agree := parse_agree_of_wording same
  rw [sign, sign'] at agree
  cases agree with
  | unexpectedToken _ place => exact ⟨same, sign, sign', place⟩

end Tabletop.Notation
