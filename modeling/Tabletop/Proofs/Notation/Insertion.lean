import Tabletop.Proofs.Notation.Cuts
import Tabletop.Proofs.Notation.Faults
import Tabletop.Proofs.Notation.Relocation

/-!
# A number written behind a sign

A sign is a token of its own, whatever stands on its two sides, and a die starts with a letter. So a number that is
written between a sign and the die behind it becomes one more word there. The words behind it are moved, the others
stay as they are.
-/

namespace Tabletop.Notation

set_option autoImplicit false

/-- White space in front of a text only moves the words of the text. -/
theorem words_blank {blank : List Char} (white : ∀ c ∈ blank, isSpace c = true) (start : Nat) (rest : List Char) :
    wordsFrom start (blank ++ rest) = wordsFrom (start + byteCount blank) rest := by
  induction blank generalizing start with
  | nil => rfl
  | cons space blank ih =>
      obtain ⟨ofSpace, ofBlank⟩ := List.forall_mem_cons.mp white
      rw [List.cons_append, words_space ofSpace, ih ofBlank, byte_count_cons, Nat.add_assoc]

theorem first_word {start : Nat} {cs : List Char} {word : Token} {words : List Token}
    (lexed : wordsFrom start cs = word :: words) :
    ∃ blank c rest, cs = blank ++ c :: rest ∧ (∀ c ∈ blank, isSpace c = true) ∧ word.kind = (classify c rest).1 ∧
      word.span.start = start + byteCount blank := by
  induction cs generalizing start with
  | nil =>
      rw [words_nil] at lexed
      cases lexed
  | cons c cs ih =>
      cases white : isSpace c with
      | true =>
          rw [words_space white] at lexed
          obtain ⟨blank, first, rest, split, ofBlank, kind, place⟩ := ih lexed
          refine ⟨c :: blank, first, rest, congrArg (c :: ·) split, List.forall_mem_cons.mpr ⟨white, ofBlank⟩, kind, ?_⟩
          rw [place, byte_count_cons, Nat.add_assoc]
      | false =>
          rw [words_cons white, List.cons.injEq] at lexed
          obtain ⟨rfl, -⟩ := lexed
          exact ⟨[], c, cs, rfl, List.forall_mem_nil _, rfl, rfl⟩

/-- Where a text starts makes no difference to its words but for their spans. -/
theorem wording_from (start start' : Nat) (cs : List Char) :
    (wordsFrom start cs).map Token.wording = (wordsFrom start' cs).map Token.wording := by
  have lexed : (tokensFrom start cs).map Token.wording = (tokensFrom start' cs).map Token.wording := by
    fun_induction tokensFrom start cs generalizing start' with
    | case1 start => rw [tokensFrom]
    | case2 start c rest run text stop ih =>
        rw [tokensFrom, List.map_cons, List.map_cons, ih]
        rfl
  have solid (tokens : List Token) : (tokens.filter (!·.isSpace)).map Token.wording =
      (tokens.map Token.wording).filter fun word => !decide (word.1 = .space) := by
    rw [List.filter_map]
    rfl
  rw [wordsFrom, wordsFrom, solid, solid, lexed]

theorem sign_breaks (negative : Bool) : Breaks (signMark negative) := by
  cases negative <;> exact ⟨rfl, rfl, by decide⟩

theorem words_sign (negative : Bool) (start : Nat) (rest : List Char) :
    wordsFrom start (signMark negative :: rest) =
      ⟨signKind negative, [signMark negative], ⟨start, start + 1⟩⟩ :: wordsFrom (start + 1) rest := by
  have solid : isSpace (signMark negative) = false := by cases negative <;> rfl
  have one : byteCount [signMark negative] = 1 := by cases negative <;> rfl
  rw [words_cons solid, classify_sign, List.take_zero, List.drop_zero, one]

theorem around_sign {cs : List Char} {left right : List Token} {sign : Token} {negative : Bool}
    (split : words cs = left ++ sign :: right) (kind : sign.kind = signKind negative) :
    ∃ before after, cs = before ++ signMark negative :: after ∧ wordsFrom 0 before = left ∧
      sign = ⟨signKind negative, [signMark negative], ⟨byteCount before, byteCount before + 1⟩⟩ ∧
      wordsFrom (byteCount before + 1) after = right := by
  obtain ⟨before, rest, cut, place, lexed⟩ := words_cut split
  have found : sign ∈ words cs := split ▸ List.mem_append_right _ List.mem_cons_self
  have placed := placed_of_word found
  obtain ⟨front, after, quoted, span⟩ := placed.quoted
  rw [placed.mark (signMark negative) (kind ▸ sign_kind_mark negative)] at quoted span
  have same : byteCount before = byteCount front := by
    rw [Nat.zero_add] at place
    rw [← place, span]
  obtain ⟨rfl, rfl⟩ := eq_of_byte_count (cut.symm.trans quoted) same
  have words_eq : words cs = wordsFrom 0 (before ++ signMark negative :: after) := congrArg (wordsFrom 0) cut
  rw [words_eq, words_before_break (sign_breaks negative), words_sign, lexed, Nat.zero_add] at split
  obtain ⟨same, rest⟩ := List.cons.inj (List.append_cancel_left split)
  exact ⟨before, after, cut, lexed, same.symm, rest⟩

theorem words_digits {rest : List Char} (stops : Stops rest) (start n : Nat) :
    let stop := start + byteCount (Decimal.digits n)
    wordsFrom start (Decimal.digits n ++ rest) = ⟨.number, Decimal.digits n, ⟨start, stop⟩⟩ :: wordsFrom stop rest := by
  obtain ⟨d, ds, written, digit, digits⟩ := digits_cons n
  have solid : isSpace d = false := by
    cases white : isSpace d with
    | false => rfl
    | true => rcases space_cases white with rfl | rfl | rfl | rfl <;> cases digit
  have run := classify_digit digit (ds ++ rest)
  rw [digit_run_append digits stops] at run
  rw [written, List.cons_append, words_cons solid, run, List.take_left, List.drop_left]

theorem stops_of_die {c : Char} {rest : List Char} (kind : (classify c rest).1 = .die) : c.isDigit = false := by
  cases digit : c.isDigit with
  | false => rfl
  | true =>
      rw [classify_digit digit] at kind
      cases kind

theorem not_digit_of_space {c : Char} (white : isSpace c = true) : c.isDigit = false := by
  rcases space_cases white with rfl | rfl | rfl | rfl <;> rfl

theorem append_of_byte_count_le {before after front back : List Char} (same : before ++ after = front ++ back)
    (le : byteCount before ≤ byteCount front) : ∃ more, front = before ++ more ∧ after = more ++ back := by
  rcases List.append_eq_append_iff.mp same with ⟨more, rfl, rfl⟩ | ⟨more, rfl, rfl⟩
  · exact ⟨more, rfl, rfl⟩
  · rw [byteCount_append] at le
    rw [eq_nil_of_byte_count (by omega : byteCount more = 0)]
    exact ⟨[], by simp, by simp⟩

/-- A number that is written between a sign and a die is one more word, and the words behind it are moved. -/
theorem words_with_number {cs front back : List Char} {left right : List Token} {sign die : Token} {negative : Bool}
    (split : words cs = left ++ sign :: die :: right) (isSign : sign.kind = signKind negative)
    (isDie : die.kind = .die) (cut : cs = front ++ back) (behind : sign.span.stop ≤ byteCount front)
    (ahead : byteCount front ≤ die.span.start) (n : Nat) :
    ∃ moved, words (front ++ Decimal.digits n ++ back) = left ++ sign :: ⟨.number, Decimal.digits n,
        ⟨byteCount front, byteCount front + byteCount (Decimal.digits n)⟩⟩ :: moved ∧
      moved.map Token.wording = (die :: right).map Token.wording := by
  obtain ⟨before, after, cut', lexed, isMark, rest⟩ := around_sign split isSign
  obtain ⟨blank, c, text, rfl, white, kind, place⟩ := first_word rest
  have bytes : byteCount (before ++ [signMark negative]) = byteCount before + 1 := by
    rw [byteCount_append]
    cases negative <;> rfl
  have same : (before ++ [signMark negative]) ++ (blank ++ c :: text) = front ++ back := by
    rw [← cut, cut', List.append_assoc, List.singleton_append]
  rw [isMark] at behind
  obtain ⟨between, rfl, gap⟩ := append_of_byte_count_le same (bytes ▸ behind)
  rw [byteCount_append, bytes] at ahead ⊢
  obtain ⟨more, rfl, rfl⟩ := append_of_byte_count_le gap.symm (by omega)
  have ofBetween : ∀ c ∈ between, isSpace c = true := fun c found => white c (List.mem_append_left _ found)
  have stops : Stops (more ++ c :: text) := by
    cases more with
    | nil => exact stops_cons (stops_of_die (kind ▸ isDie))
    | cons space more => exact stops_cons (not_digit_of_space (white space (by simp)))
  have written : before ++ [signMark negative] ++ between ++ Decimal.digits n ++ (more ++ c :: text) =
      before ++ signMark negative :: (between ++ (Decimal.digits n ++ (more ++ c :: text))) := by simp
  rw [words, written, words_before_break (sign_breaks negative), words_sign, words_blank ofBetween,
    words_digits stops, lexed, Nat.zero_add, ← isMark]
  refine ⟨_, rfl, ?_⟩
  rw [← rest, List.append_assoc, words_blank ofBetween]
  exact wording_from _ _ _

end Tabletop.Notation
