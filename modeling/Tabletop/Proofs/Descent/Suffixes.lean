import Tabletop.Proofs.Descent.Feeding

/-!
# Suffixes read by descent

Behind a roll a descent does with each token what the reading has a rule for. Only some tokens are taken twice: a
relation is pushed back and read again as part of its test, and so is what ends the roll or starts the next member.
-/

namespace Tabletop.Notation.Descent

set_option autoImplicit false

variable {cs : List Char} {feed : Feed} {times : Nat} {token : Token} {groups : List Frame} {roll : Roll}

section Tests

variable {slot : Slot}

theorem meets_threshold {relation : Relation} (clear : Clear cs ⟨groups, .threshold roll slot relation⟩ feed) :
    Meets cs (threshold relation) feed fun test later =>
      Clear cs ⟨groups, .suffix (slot.fill test roll) none⟩ later ∧ later.left ≤ feed.left := by
  have refused (token : Token) (other : token.kind ≠ .number) :
      Reading.step ⟨groups, .threshold roll slot relation⟩ token = token.unexpected := by
    unfold Reading.step
    split <;> simp_all
  apply meets_seq (meets_expect clear (by decide) (fun _ => rfl) refused (by cases groups <;> rfl))
  intro value held given
  obtain ⟨number, holds, left⟩ := given
  simp only [Reading.step, number] at holds
  apply meets_seq (meets_ask holds)
  intro threshold same given
  obtain ⟨rfl, -, holds⟩ := given
  exact ⟨clear_of_held holds, by omega⟩

theorem meets_test (held : Held cs times (.meeting (byteCount cs) ⟨groups, .test roll slot⟩ token) token feed) :
    Meets cs (testFrom token) feed fun test later =>
      Clear cs ⟨groups, .suffix (slot.fill test roll) none⟩ later ∧ later.left ≤ feed.left := by
  unfold testFrom
  split
  · rename_i number
    have holds := held_after held (by simp [number]) rfl
    simp only [Reading.step, number] at holds
    apply meets_seq (meets_ask holds)
    intro threshold same given
    obtain ⟨rfl, -, holds⟩ := given
    exact ⟨clear_of_held holds, Nat.le_refl _⟩
  · rename_i relation compare
    exact meets_threshold (clear_of_step held (.relation compare) (by simp [compare]))
  · rename_i notNumber notCompare
    apply meets_refused held _ rfl fun _ => by cases groups <;> rfl
    unfold Reading.step
    split <;> simp_all

theorem meets_comparison (clear : Clear cs ⟨groups, .test roll slot⟩ feed) :
    Meets cs comparison feed fun test later =>
      Clear cs ⟨groups, .suffix (slot.fill test roll) none⟩ later ∧ later.left ≤ feed.left := by
  apply meets_seq (meets_advance clear)
  intro token held given
  obtain ⟨holds, left⟩ := given
  apply meets_mono (meets_test holds)
  intro test later given
  exact ⟨given.1, by omega⟩

/-- A relation that stands for itself is read again as the first token of its test. -/
theorem meets_success {pending : Option Pending} {relation : Relation}
    (returned : Returned cs (.meeting (byteCount cs) ⟨groups, .suffix roll pending⟩ token) token feed)
    (compare : token.kind = .compare relation) :
    Meets cs comparison feed fun test later =>
      Clear cs ⟨groups, .suffix (Slot.success.fill test roll) none⟩ later ∧ later.left < feed.left := by
  apply meets_seq (meets_advance_again returned)
  intro token' held given
  obtain ⟨rfl, holds, left⟩ := given
  simp only [testFrom, compare]
  apply meets_mono (meets_threshold (clear_of_step holds (.success compare) (by simp [compare])))
  intro test later given
  rw [weight_of_word (by simp [compare])] at left
  exact ⟨given.1, by omega⟩

end Tests

theorem signed_number_of_number (negative : Bool) {size : Whole} (number : token.number = .ok size) :
    ∃ value, Whole.ofInt? ((unit negative).val * size.val) = some value ∧ token.signedNumber negative = .ok value := by
  have size_eq := Token.number_eq_ok.mp number
  have nonnegative : 0 ≤ size.val := size_eq ▸ Int.natCast_nonneg _
  have high := size.high
  have fits : Whole.InRange (signed negative size.val) := by
    cases negative <;> simp [Whole.InRange, signed] <;> omega
  refine ⟨⟨_, fits.1, fits.2⟩, ?_, Token.signed_number_eq_ok.mpr ⟨size, size_eq, rfl⟩⟩
  rw [Whole.ofInt?_eq_some]
  cases negative <;> simp [signed, unit, Whole.one, Whole.minusOne]

def added (groups : List Frame) (roll : Roll) (sign : Span) (value : Whole) (number : Token) :
    Except Fault Reading := do
  let modifier ← number.orUnexpected (roll.tail.modifier.add? value)
  .ok ⟨groups, .suffix (roll.withTail { roll.tail with modifier }) (some ⟨value, sign, roll.tail.modifier⟩)⟩

def Starts (token : Token) : Prop := token.kind = .die ∨ token.kind = .opening

/-- A member is complete, and the start of the next one was pushed back. -/
def Handing (cs : List Char) (groups : List Frame) (roll : Roll) (value : Whole) (sign : Span) (feed : Feed) : Prop :=
  ∃ token, Starts token ∧ groups ≠ [] ∧
    Returned cs (.after (byteCount cs) (Reading.hand groups roll value sign token)) token feed

def AfterSign (cs : List Char) (groups : List Frame) (roll : Roll) (sign : Span) : Signed → Feed → Prop
  | .number value number, feed => Held cs 1 (.after (byteCount cs) (added groups roll sign value number)) number feed
  | .member unit, feed => Handing cs groups roll unit sign feed

theorem word_of_starts (starts : Starts token) : token.kind ≠ .ending := by
  rcases starts with die | opening <;> simp [*]

section AfterSign

variable {negative : Bool}

theorem finish_after_sign (groups : List Frame) (roll : Roll) (negative : Bool) (sign : Span) :
    Reading.finish ⟨groups, .modifier roll negative sign⟩ (byteCount cs) =
      (Token.ending (byteCount cs)).unexpected := by
  cases groups <;> rfl

theorem meets_number_after_sign {sign : Span} (number : token.kind = .number)
    (held : Held cs 1 (.meeting (byteCount cs) ⟨groups, .modifier roll negative sign⟩ token) token feed) :
    Meets cs (numberAfterSign (unit negative) token) feed fun found later =>
      later.left ≤ feed.left ∧ AfterSign cs groups roll sign found later := by
  have holds := held_after held (by simp [number]) rfl
  simp only [Reading.step, number, Reading.afterNumber] at holds
  unfold numberAfterSign
  cases known : token.number with
  | error fault =>
      simp only [Token.signedNumber, known] at holds
      exact fails_of_held holds
  | ok size =>
      obtain ⟨value, product, signed⟩ := signed_number_of_number negative known
      change Meets cs (unchecked _ >>= _) _ _
      rw [product]
      rw [signed] at holds
      exact ⟨Nat.le_refl _, holds⟩

theorem meets_start_after_sign {sign : Span} (starts : Starts token)
    (held : Held cs 1 (.meeting (byteCount cs) ⟨groups, .modifier roll negative sign⟩ token) token feed) :
    Meets cs (giveBack (!groups.isEmpty) token (.member (unit negative))) feed fun found later =>
      later.left ≤ feed.left + token.weight ∧ AfterSign cs groups roll sign found later := by
  have handed : Reading.step ⟨groups, .modifier roll negative sign⟩ token =
      Reading.hand groups roll (unit negative) sign token := by
    rcases starts with die | opening
    · simp only [Reading.step, die, unit]
    · simp only [Reading.step, opening, unit]
  cases groups with
  | nil => exact meets_refused held handed rfl fun _ => finish_after_sign _ _ _ _
  | cons frame outer =>
      have holds := held_after held (word_of_starts starts) rfl
      rw [handed] at holds
      apply meets_seq (meets_rewind holds)
      intro _ back given
      exact ⟨Nat.le_of_eq given.2, token, starts, List.cons_ne_nil _ _, given.1⟩

theorem meets_after_sign {sign : Token} (kind : sign.kind = signKind negative)
    (clear : Clear cs ⟨groups, .modifier roll negative sign.span⟩ feed) :
    Meets cs (afterSign sign (!groups.isEmpty)) feed fun found later =>
      later.left ≤ feed.left ∧ AfterSign cs groups roll sign.span found later := by
  have unit_eq : (if sign.kind = .minus then Whole.minusOne else .one) = unit negative := by
    rw [kind]
    cases negative <;> rfl
  apply meets_seq (meets_advance clear)
  intro token held given
  obtain ⟨holds, left⟩ := given
  rw [unit_eq, ← left]
  split
  · rename_i number
    apply meets_mono (meets_number_after_sign number holds)
    exact fun found later given => ⟨Nat.le_add_right_of_le given.1, given.2⟩
  · exact meets_start_after_sign (.inl ‹_›) holds
  · exact meets_start_after_sign (.inr ‹_›) holds
  · apply meets_refused holds _ rfl fun _ => finish_after_sign _ _ _ _
    unfold Reading.step
    split <;> simp_all

end AfterSign

/-- The modifier read last, and the one from before it, are those of the tail. -/
inductive Kept : Option (Whole × Span) → Option Pending → Tail → Prop where
  | none {tail : Tail} : Kept none none tail
  | some {value before : Whole} {sign : Span} {tail : Tail} (sum : before.val + value.val = tail.modifier.val) :
      Kept (some (value, sign)) (some ⟨value, sign, before⟩) tail

def EndsRoll (groups : List Frame) (token : Token) : Prop :=
  token.kind = .ending ∨ groups ≠ [] ∧ (token.kind = .closing ∨ token.kind = .comma)

/-- Where a descent is behind a roll that gave the signal. -/
def Signalled (cs : List Char) (groups : List Frame) (roll : Roll) : Signal → Feed → Prop
  | .ended, feed => ∃ token pending, EndsRoll groups token ∧
      Returned cs (.meeting (byteCount cs) ⟨groups, .suffix roll pending⟩ token) token feed
  | .handing value sign, feed => Handing cs groups roll value sign feed

/-- Where a descent is behind a suffix, when so many words were left in front of it. -/
def BehindSuffix (cs : List Char) (groups : List Frame) (roll : Roll) (left : Nat) : Tail × Flow → Feed → Prop
  | (tail, .goOn last), feed => feed.left < left ∧
      ∃ pending, Clear cs ⟨groups, .suffix (roll.withTail tail) pending⟩ feed ∧ Kept last pending tail
  | (tail, .leave signal), feed => feed.left ≤ left ∧ Signalled cs groups (roll.withTail tail) signal feed

def OfDice (token : Token) : Prop :=
  (∃ once, token.kind = .reroll once) ∨ (∃ kind, token.kind = .explode kind) ∨ ∃ order, token.kind = .sort order

section Suffixes

variable {pending : Option Pending} {last : Option (Whole × Span)}

theorem with_own_tail (roll : Roll) : roll.withTail roll.tail = roll := by cases roll <;> rfl

theorem meets_sign (negative : Bool) (kind : token.kind = signKind negative)
    (held : Held cs 1 (.meeting (byteCount cs) ⟨groups, .suffix roll pending⟩ token) token feed) :
    Meets cs (addSigned roll.tail token (!groups.isEmpty)) feed (BehindSuffix cs groups roll (feed.left + 1)) := by
  have other : token.kind ≠ .die := by cases negative <;> simp [kind, signKind]
  apply meets_seq (meets_after_sign kind (clear_of_step held (.sign kind) other))
  intro found later given
  cases found with
  | number value number =>
      obtain ⟨left, holds⟩ := given
      apply meets_seq (meets_ask holds)
      intro modifier same given
      obtain ⟨rfl, sum, holds⟩ := given
      rw [Token.or_unexpected_eq_ok, Whole.add?, Whole.ofInt?_eq_some] at sum
      exact ⟨by omega, _, clear_of_held holds, .some sum.symm⟩
  | member unit =>
      obtain ⟨left, handing⟩ := given
      refine ⟨by omega, ?_⟩
      rw [with_own_tail]
      exact handing

theorem sub_of_sum {before value modifier : Whole} (sum : before.val + value.val = modifier.val) :
    modifier.sub? value = some before := by
  rw [Whole.sub?, Whole.ofInt?_eq_some]
  omega

/-- A die takes the modifier before it, and the roll before it gets back the one it had. -/
theorem meets_taking {value before : Whole} {sign : Span} (die : token.kind = .die) (grouped : groups ≠ [])
    (sum : before.val + value.val = roll.tail.modifier.val)
    (held : Held cs 1 (.meeting (byteCount cs) ⟨groups, .suffix roll (some ⟨value, sign, before⟩)⟩ token) token feed) :
    Meets cs (takeModifier roll.tail token value sign) feed (BehindSuffix cs groups roll (feed.left + 1)) := by
  have word : token.kind ≠ .ending := by simp [die]
  have taken : Reading.taken? ⟨groups, .suffix roll (some ⟨value, sign, before⟩)⟩ token = some value := by
    cases groups with
    | nil => exact absurd rfl grouped
    | cons frame outer => simp [Reading.taken?, die]
  have handed : Reading.step ⟨groups, .suffix roll (some ⟨value, sign, before⟩)⟩ token =
      Reading.hand groups (roll.withTail { roll.tail with modifier := before }) value sign token := by
    simp [Reading.step, Reading.suffix, die]
  rw [Outlook.meeting_eq_taking word taken, handed] at held
  apply meets_seq (meets_mark held)
  intro _ marked given
  obtain ⟨held, same⟩ := given
  apply meets_seq (meets_rewind held)
  intro _ back given
  obtain ⟨returned, left⟩ := given
  -- The sum that was in range is undone, so nothing leaves the range here.
  have undone : roll.tail.modifier.sub? value = some before := sub_of_sum sum
  rw [weight_of_word word] at left
  rw [undone]
  exact ⟨by omega, token, .inl die, grouped, returned⟩

theorem meets_ended (ends : EndsRoll groups token)
    (held : Held cs 1 (.meeting (byteCount cs) ⟨groups, .suffix roll pending⟩ token) token feed) :
    Meets cs (do rewind; return (roll.tail, Flow.leave .ended)) feed
      (BehindSuffix cs groups roll (feed.left + token.weight)) := by
  apply meets_seq (meets_rewind held)
  intro _ back given
  refine ⟨by omega, token, pending, ends, ?_⟩
  rw [with_own_tail]
  exact given.1

theorem meets_ended_in_group (kind : token.kind = .closing ∨ token.kind = .comma)
    (held : Held cs 1 (.meeting (byteCount cs) ⟨groups, .suffix roll pending⟩ token) token feed) :
    Meets cs (giveBack (!groups.isEmpty) token (roll.tail, .leave .ended)) feed
      (BehindSuffix cs groups roll (feed.left + token.weight)) := by
  cases groups with
  | nil =>
      apply meets_refused held
      · rcases kind with closing | comma <;> simp [Reading.step, Reading.suffix, *]
      · apply untaken_of_kind
        rcases kind with closing | comma <;> simp [*]
      · rcases kind with closing | comma <;> simp [*]
  | cons frame outer => exact meets_ended (.inr ⟨List.cons_ne_nil _ _, kind⟩) held

theorem meets_suffix (held : Held cs 1 (.meeting (byteCount cs) ⟨groups, .suffix roll pending⟩ token) token feed)
    (kept : Kept last pending roll.tail)
    (shared : OfDice token → Reading.suffix groups roll pending token = token.unexpected) :
    Meets cs (suffix roll.tail token (!groups.isEmpty) last) feed
      (BehindSuffix cs groups roll (feed.left + token.weight)) := by
  unfold suffix
  split
  case h_1 kind =>
    rw [weight_of_word (by simp [kind])]
    exact meets_sign false kind held
  case h_2 kind =>
    rw [weight_of_word (by simp [kind])]
    exact meets_sign true kind held
  case h_3 kind limit =>
    have word : token.kind ≠ .ending := by simp [limit]
    have holds := held_after held word (untaken_of_kind _ (by simp [limit]))
    simp only [Reading.step, Reading.suffix, limit] at holds
    apply meets_seq (meets_ask holds)
    intro limit same given
    obtain ⟨rfl, -, holds⟩ := given
    rw [weight_of_word word]
    exact ⟨Nat.lt_succ_self _, _, clear_of_held holds, .none⟩
  case h_4 relation compare =>
    apply meets_seq (meets_rewind held)
    intro _ back given
    obtain ⟨returned, left⟩ := given
    apply meets_seq (meets_success returned compare)
    intro test later given
    exact ⟨by omega, _, given.1, .none⟩
  case h_5 failure =>
    have clear := clear_of_step held (.failure failure) (by simp [failure])
    apply meets_seq (meets_comparison clear)
    intro test later given
    rw [weight_of_word (by simp [failure])]
    exact ⟨by omega, _, given.1, .none⟩
  case h_6 ending => exact meets_ended (.inl ending) held
  case h_7 closing => exact meets_ended_in_group (.inl closing) held
  case h_8 comma => exact meets_ended_in_group (.inr comma) held
  case h_9 die =>
    rw [weight_of_word (by simp [die])]
    cases kept with
    | none =>
        cases groups <;>
          exact meets_refused held (by simp [Reading.step, Reading.suffix, die]) (by simp [Reading.taken?])
            (by simp [die])
    | some sum =>
        cases groups with
        | nil =>
            exact meets_refused held (by simp [Reading.step, Reading.suffix, die, Reading.hand])
              (by simp [Reading.taken?]) (by simp [die])
        | cons frame outer => exact meets_taking die (List.cons_ne_nil _ _) sum held
  case h_10 =>
    apply meets_refused held
    · by_cases own : OfDice token
      · exact shared own
      · change Reading.suffix groups roll pending token = token.unexpected
        unfold Reading.suffix
        split <;> simp_all [OfDice]
    · exact untaken_of_kind _ ‹_›
    · exact fun ending => absurd ending ‹_›

end Suffixes

end Tabletop.Notation.Descent
