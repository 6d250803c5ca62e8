import Tabletop.Proofs.Notation.Lexing

/-!
# White space between tokens

White space is never part of another token. So it keeps apart what stands on its two sides, whatever that is, and the
tokens that are read are those of the one side and then those of the other.
-/

namespace Tabletop.Notation

set_option autoImplicit false

def wordsFrom (start : Nat) (cs : List Char) : List Token := (tokensFrom start cs).filter (!·.isSpace)

/-- The tokens of a notation that a reading takes. -/
def words (cs : List Char) : List Token := wordsFrom 0 cs

variable {space c : Char}

theorem byte_count_cons (c : Char) (cs : List Char) : byteCount (c :: cs) = c.utf8Size + byteCount cs := by
  rw [← List.singleton_append, byteCount_append]
  exact congrArg (· + _) (Nat.zero_add _)

theorem words_nil (start : Nat) : wordsFrom start [] = [] := by
  rw [wordsFrom, tokensFrom, List.filter_nil]

theorem space_cases (white : isSpace space = true) : space = ' ' ∨ space = '\t' ∨ space = '\r' ∨ space = '\n' := by
  simpa [isSpace, or_assoc] using white

theorem space_breaks (white : isSpace space = true) : Breaks space := by
  rcases space_cases white with rfl | rfl | rfl | rfl <;> exact ⟨rfl, rfl, by decide⟩

theorem classify_space (white : isSpace space = true) (rest : List Char) :
    classify space rest = (.space, spaceRun rest) := by
  rcases space_cases white with rfl | rfl | rfl | rfl <;> rfl

theorem kind_ne_space (solid : isSpace c = false) (rest : List Char) : (classify c rest).1 ≠ .space := by
  fun_cases classify c rest <;> simp_all

theorem words_cons (solid : isSpace c = false) (start : Nat) (rest : List Char) :
    let run := classify c rest
    let text := c :: rest.take run.2
    let stop := start + byteCount text
    wordsFrom start (c :: rest) = ⟨run.1, text, ⟨start, stop⟩⟩ :: wordsFrom stop (rest.drop run.2) := by
  have kept := kind_ne_space solid rest
  rw [wordsFrom, tokensFrom, List.filter_cons_of_pos (by simp [Token.isSpace, kept])]
  rfl

theorem words_space_run (white : isSpace space = true) (start : Nat) (rest : List Char) :
    wordsFrom start (space :: rest) =
      wordsFrom (start + byteCount (space :: rest.take (spaceRun rest))) (rest.drop (spaceRun rest)) := by
  rw [wordsFrom, tokensFrom, classify_space white, List.filter_cons_of_neg (by simp [Token.isSpace]), wordsFrom]

theorem words_space (white : isSpace space = true) (start : Nat) (rest : List Char) :
    wordsFrom start (space :: rest) = wordsFrom (start + space.utf8Size) rest := by
  rw [words_space_run white]
  cases rest with
  | nil => rw [List.drop_nil, words_nil, words_nil]
  | cons next rest =>
      cases white' : isSpace next with
      | false =>
          have none : spaceRun (next :: rest) = 0 := by simp [spaceRun, white']
          rw [none, List.take_zero, List.drop_zero]
          exact congrArg (wordsFrom · _) (congrArg (start + ·) (Nat.zero_add _))
      | true =>
          have more : spaceRun (next :: rest) = spaceRun rest + 1 := by simp [spaceRun, white']
          rw [words_space_run white', more, List.take_succ_cons, List.drop_succ_cons, byte_count_cons, Nat.add_assoc]

/-- No word is made of both sides of a mark that breaks tokens. -/
theorem words_before_break {mark : Char} (breaks : Breaks mark) (start : Nat) (text rest : List Char) :
    wordsFrom start (text ++ mark :: rest) =
      wordsFrom start text ++ wordsFrom (start + byteCount text) (mark :: rest) := by
  match text with
  | [] =>
      rw [words_nil]
      rfl
  | c :: text =>
      rw [List.cons_append]
      cases white : isSpace c with
      | true =>
          rw [words_space white, words_space white, words_before_break breaks _ text rest, byte_count_cons,
            Nat.add_assoc]
      | false =>
          have short := classify_length_le c text
          have bytes : byteCount (c :: text) =
              byteCount (c :: text.take (classify c text).2) + byteCount (text.drop (classify c text).2) := by
            rw [← byteCount_append, List.cons_append, List.take_append_drop]
          rw [words_cons white, words_cons white, classify_before breaks (.inl white),
            List.take_append_of_le_length short, List.drop_append_of_le_length short,
            words_before_break breaks _ (text.drop (classify c text).2) rest, bytes, Nat.add_assoc]
          rfl
termination_by text.length
decreasing_by
  · rw [List.length_drop, List.length_cons]
    omega
  · exact Nat.lt_succ_self _

/-- White space keeps two texts apart. -/
theorem words_before_space (white : isSpace space = true) (start : Nat) (text rest : List Char) :
    ∃ stop, wordsFrom start (text ++ space :: rest) = wordsFrom start text ++ wordsFrom stop rest :=
  ⟨_, by rw [words_before_break (space_breaks white), words_space white]⟩

end Tabletop.Notation
