import Tabletop.Proofs.Descent.Script
import Tabletop.Proofs.Notation.Cuts
import Tabletop.Proofs.Notation.Faults

/-!
# Faults are final

A reading fails at a word and looks no further. White space and any text behind the notation leave that word and all
tokens before it as they are, so the same fault is found, after the same tokens were met.
-/

namespace Tabletop.Notation

set_option autoImplicit false

theorem take_while_before_stop {p : Char → Bool} {text : List Char} (stops : text.drop (text.takeWhile p).length ≠ [])
    (more : List Char) : (text ++ more).takeWhile p = text.takeWhile p := by
  rw [List.takeWhile_append, if_neg]
  intro all
  rw [all, List.drop_length] at stops
  exact stops rfl

theorem classify_before_space {c space : Char} {text : List Char} (white : isSpace space = true)
    (inner : text.drop (classify c text).2 ≠ [] ∨ (classify c text).1 ≠ .space) (more : List Char) :
    classify c (text ++ space :: more) = classify c text := by
  cases ofSpace : isSpace c with
  | false => exact classify_before (space_breaks white) (.inl ofSpace) text more
  | true =>
      rw [classify_space ofSpace] at inner ⊢
      have goesOn := inner.resolve_right fun other => other rfl
      rw [classify_space ofSpace, spaceRun, take_while_before_stop goesOn, spaceRun]

theorem tokens_before_space {start : Nat} {text : List Char} {front behind : List Token} {token : Token} {space : Char}
    (white : isSpace space = true) (lexed : tokensFrom start text = front ++ token :: behind)
    (solid : token.isSpace = false) (more : List Char) :
    ∃ behind', tokensFrom start (text ++ space :: more) = front ++ token :: behind' := by
  induction front generalizing start text with
  | nil =>
      cases text with
      | nil => simp [tokensFrom] at lexed
      | cons c text =>
          rw [tokensFrom, List.nil_append, List.cons.injEq] at lexed
          have word : (classify c text).1 ≠ .space := by
            rw [← lexed.1] at solid
            exact of_decide_eq_false solid
          rw [tokens_cons_append start (classify_before_space white (.inr word) more), lexed.1]
          exact ⟨_, rfl⟩
  | cons first front ih =>
      cases text with
      | nil => simp [tokensFrom] at lexed
      | cons c text =>
          rw [tokensFrom, List.cons_append, List.cons.injEq] at lexed
          have inner : text.drop (classify c text).2 ≠ [] := by
            intro empty
            simp [empty, tokensFrom] at lexed
          obtain ⟨behind', lexed'⟩ := ih lexed.2
          refine ⟨behind', ?_⟩
          rw [tokens_cons_append start (classify_before_space white (.inl inner) more), lexed.1, lexed']
          rfl

namespace Reading

/-- No mark is left behind the word at fault, whatever stands there. -/
theorem trail_to_fault {reading reached : Reading} {front : List Token} {token : Token} {fault : Fault}
    (reads : Reads reading (front.filter (!·.isSpace)) reached) (solid : token.isSpace = false)
    (failed : reached.step token = .error fault) (length length' : Nat) (behind behind' : List Token) :
    reading.trail length (front ++ token :: behind) = reading.trail length' (front ++ token :: behind') := by
  induction front generalizing reading with
  | nil =>
      cases reads
      rw [List.nil_append, List.nil_append, trail_word solid, trail_word solid, further, further, failed]
  | cons first front ih =>
      rw [List.cons_append, List.cons_append]
      cases ofFirst : first.isSpace with
      | true =>
          rw [List.filter_cons_of_neg (by simp [ofFirst])] at reads
          rw [trail_space ofFirst, trail_space ofFirst, ih reads]
      | false =>
          rw [List.filter_cons_of_pos (by simp [ofFirst])] at reads
          cases reads with
          | cons step reads =>
              have same := ih reads
              rw [trail_word ofFirst, trail_word ofFirst, further, further, step_eq_ok.mpr step]
              dsimp only
              rw [same]

end Reading

theorem word_of_fault {cs : List Char} {fault : Fault} {quoted : List Char} (failed : read cs = .error fault)
    (found : fault.text? = some quoted) (written : quoted ≠ []) :
    ∃ before token after reached, words cs = before ++ token :: after ∧ Reading.Reads .start before reached ∧
      reached.step token = .error fault := by
  rcases read_eq_error.mp failed with inside | ⟨reached, -, failed⟩
  · exact inside
  · rcases Reading.finish_eq_error failed with blamed | ⟨frame, -, rfl⟩
    · have empty := blamed.text.symm.trans found
      cases empty
      exact absurd rfl written
    · cases found

/-- A fault that quotes some of the notation is final. With white space and any text behind it, the notation has the
same fault, and nothing is met on the way that was not met before. -/
theorem parse_fault_final {text : String} {fault : Fault} {quoted : List Char} (failed : parse text = .error fault)
    (found : fault.text? = some quoted) (written : quoted ≠ []) (more : String) :
    parse (text ++ " " ++ more) = .error fault ∧ trail (text ++ " " ++ more).toList = trail text.toList := by
  obtain ⟨before, token, after, reached, split, reads, stuck⟩ := word_of_fault failed found written
  obtain ⟨front, behind, lexed, rfl, solid⟩ := token_of_word split
  have blank : isSpace ' ' = true := rfl
  obtain ⟨behind', lexed'⟩ := tokens_before_space blank lexed solid more.toList
  have joined : (text ++ " " ++ more).toList = text.toList ++ ' ' :: more.toList := by
    simp
  rw [parse, joined]
  constructor
  · refine read_eq_error.mpr (.inl ⟨_, token, behind'.filter (!·.isSpace), reached, ?_, reads, stuck⟩)
    rw [words, wordsFrom, lexed', List.filter_append, List.filter_cons_of_pos (by simp [solid])]
  · rw [trail, trail, tokens, tokens, lexed, lexed']
    exact Reading.trail_to_fault reads solid stuck _ _ _ _

theorem parse_fault_final_at_sign :
    let text := "\x7bd6,d8-2d4"
    let fault := Fault.unexpectedToken ['-'] ⟨6, 7⟩
    parse text = .error fault ∧ parse (text ++ " " ++ "kh1\x7d") = .error fault := by
  intro text fault
  have failed : parse text = .error fault := by cbv
  exact ⟨failed, (parse_fault_final failed rfl (List.cons_ne_nil _ _) "kh1\x7d").1⟩

end Tabletop.Notation
