import Tabletop.Proofs.Notation.Spacing

/-!
# Cutting a notation between tokens

A notation that is cut where a token starts has the tokens before that one and no others: none of them looked beyond its
own end to be what it is.
-/

namespace Tabletop.Notation

set_option autoImplicit false

theorem take_while_cut {p : Char → Bool} {part more : List Char}
    (short : ((part ++ more).takeWhile p).length ≤ part.length) :
    part.takeWhile p = (part ++ more).takeWhile p := by
  induction part with
  | nil => simpa using short
  | cons c part ih =>
      cases holds : p c with
      | false => simp [holds]
      | true => simp_all

theorem digit_run_cut {part more : List Char} (short : digitRun (part ++ more) ≤ part.length) :
    digitRun part = digitRun (part ++ more) :=
  congrArg List.length (take_while_cut short)

theorem space_run_cut {part more : List Char} (short : spaceRun (part ++ more) ≤ part.length) :
    spaceRun part = spaceRun (part ++ more) :=
  congrArg List.length (take_while_cut short)

theorem die_run_cut {part more : List Char} (short : dieRun (part ++ more) ≤ part.length) :
    dieRun part = dieRun (part ++ more) := by
  cases part with
  | nil => exact (Nat.le_zero.mp short).symm
  | cons c part =>
      simp only [List.cons_append, dieRun] at short ⊢
      split
      · rfl
      · rename_i other
        rw [if_neg other] at short
        exact digit_run_cut short

/-- A token is the same where the text is cut behind it. -/
theorem classify_cut {c : Char} (part more : List Char) (short : (classify c (part ++ more)).2 ≤ part.length) :
    classify c part = classify c (part ++ more) := by
  cases white : isSpace c with
  | true =>
      rw [classify_space white] at short
      rw [classify_space white, classify_space white, space_run_cut short]
  | false =>
      cases digit : c.isDigit with
      | true =>
          rw [classify_digit digit] at short
          rw [classify_digit digit, classify_digit digit, digit_run_cut short]
      | false =>
          have dice := @die_run_cut part more
          cases part with
          | nil =>
              rw [List.nil_append] at *
              revert short
              fun_cases classify c more <;> simp_all [classify]
          | cons head part =>
              have amount := @digit_run_cut part more
              rw [List.cons_append] at *
              unfold classify at short ⊢
              split <;> simp_all

theorem tokens_cons_cut {c : Char} {part more : List Char} (start : Nat)
    (inside : (classify c (part ++ more)).2 ≤ part.length) :
    let run := classify c (part ++ more)
    let text := c :: (part ++ more).take run.2
    let stop := start + byteCount text
    tokensFrom start (c :: part) = ⟨run.1, text, ⟨start, stop⟩⟩ :: tokensFrom stop (part.drop run.2) := by
  intro run text stop
  have same : text = c :: part.take run.2 := congrArg (c :: ·) (List.take_append_of_le_length inside)
  rw [tokensFrom, classify_cut part more inside, ← same]

/-- The text before a token is lexed into the tokens before it. -/
theorem tokens_cut {start : Nat} {cs : List Char} {left right : List Token} {token : Token}
    (split : tokensFrom start cs = left ++ token :: right) :
    ∃ before after, cs = before ++ after ∧ token.span.start = start + byteCount before ∧
      tokensFrom start before = left := by
  induction left generalizing start cs with
  | nil =>
      cases cs with
      | nil => simp [tokensFrom] at split
      | cons c rest =>
          rw [tokensFrom, List.nil_append, List.cons.injEq] at split
          exact ⟨[], c :: rest, rfl, by rw [← split.1]; rfl, by rw [tokensFrom]⟩
  | cons first left ih =>
      cases cs with
      | nil => simp [tokensFrom] at split
      | cons c rest =>
          rw [tokensFrom, List.cons_append, List.cons.injEq] at split
          obtain ⟨before, after, cut, place, lexed⟩ := ih split.2
          have inside := classify_length_le c rest
          have taken : (rest.take (classify c rest).2).length = (classify c rest).2 := List.length_take_of_le inside
          obtain ⟨part, joined, long, dropped⟩ : ∃ part, rest = part ++ after ∧
              (classify c rest).2 ≤ part.length ∧ part.drop (classify c rest).2 = before := by
            refine ⟨rest.take (classify c rest).2 ++ before, ?_, ?_, List.drop_left' taken⟩
            · rw [List.append_assoc, ← cut, List.take_append_drop]
            · rw [List.length_append, taken]
              exact Nat.le_add_right _ _
          subst joined
          have text : c :: part = c :: (part ++ after).take (classify c (part ++ after)).2 ++ before := by
            rw [List.take_append_of_le_length long, ← dropped, List.cons_append, List.take_append_drop]
          refine ⟨c :: part, after, rfl, ?_, ?_⟩
          · rw [place, text, byteCount_append, Nat.add_assoc]
          · rw [tokens_cons_cut start long, dropped, lexed, split.1]

theorem token_of_word {start : Nat} {cs : List Char} {left right : List Token} {token : Token}
    (split : wordsFrom start cs = left ++ token :: right) :
    ∃ front behind, tokensFrom start cs = front ++ token :: behind ∧ front.filter (!·.isSpace) = left ∧
      token.isSpace = false := by
  obtain ⟨front, others, tokens, left_eq, others_eq⟩ := List.filter_eq_append_iff.mp split
  obtain ⟨spaces, behind, rfl, white, solid, -⟩ := List.filter_eq_cons_iff.mp others_eq
  have none : spaces.filter (!·.isSpace) = [] := List.filter_eq_nil_iff.mpr white
  refine ⟨front ++ spaces, behind, ?_, ?_, by simpa using solid⟩
  · rw [tokens, List.append_assoc]
  · rw [List.filter_append, left_eq, none, List.append_nil]

theorem words_cut {start : Nat} {cs : List Char} {left right : List Token} {token : Token}
    (split : wordsFrom start cs = left ++ token :: right) :
    ∃ before after, cs = before ++ after ∧ token.span.start = start + byteCount before ∧
      wordsFrom start before = left := by
  obtain ⟨front, behind, tokens, words, -⟩ := token_of_word split
  obtain ⟨before, after, cut, place, lexed⟩ := tokens_cut tokens
  exact ⟨before, after, cut, place, by rw [wordsFrom, lexed, words]⟩

end Tabletop.Notation
