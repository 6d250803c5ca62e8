import Tabletop.Proofs.Notation.Spelling

/-!
# Where tokens stand

A token says which bytes of the notation its text takes, and its text is what stands there. Two texts that stand at the
same bytes are the same, because bytes are counted in whole characters.
-/

namespace Tabletop.Notation

set_option autoImplicit false

/-- The text stands at the span, which starts and stops between characters. -/
def Quotes (cs : List Char) (span : Span) (text : List Char) : Prop :=
  ∃ before after, cs = before ++ (text ++ after) ∧ span = ⟨byteCount before, byteCount (before ++ text)⟩

theorem eq_nil_of_byte_count {cs : List Char} (empty : byteCount cs = 0) : cs = [] := by
  cases cs with
  | nil => rfl
  | cons c cs =>
      have positive := c.utf8Size_pos
      have split : byteCount (c :: cs) = byteCount [c] + byteCount cs := byteCount_append [c] cs
      have first : byteCount [c] = 0 + c.utf8Size := rfl
      omega

theorem byte_count_pos {cs : List Char} (written : cs ≠ []) : 0 < byteCount cs :=
  Nat.pos_of_ne_zero fun empty => written (eq_nil_of_byte_count empty)

/-- A text is cut in two at most once behind so many bytes. -/
theorem eq_of_byte_count {before before' after after' : List Char} (same : before ++ after = before' ++ after')
    (bytes : byteCount before = byteCount before') : before = before' ∧ after = after' := by
  rcases List.append_eq_append_iff.mp same with ⟨more, rfl, rfl⟩ | ⟨more, rfl, rfl⟩
  · rw [byteCount_append] at bytes
    rw [eq_nil_of_byte_count (by omega : byteCount more = 0), List.append_nil, List.nil_append]
    exact ⟨rfl, rfl⟩
  · rw [byteCount_append] at bytes
    rw [eq_nil_of_byte_count (by omega : byteCount more = 0), List.append_nil, List.nil_append]
    exact ⟨rfl, rfl⟩

theorem quotes_bounds {cs : List Char} {span : Span} {text : List Char} (quotes : Quotes cs span text) :
    span.start ≤ span.stop ∧ span.stop ≤ byteCount cs := by
  obtain ⟨before, after, rfl, rfl⟩ := quotes
  simp only [byteCount_append]
  omega

theorem quotes_unique {cs : List Char} {span : Span} {text text' : List Char} (quotes : Quotes cs span text)
    (quotes' : Quotes cs span text') : text = text' := by
  obtain ⟨before, after, rfl, rfl⟩ := quotes
  obtain ⟨before', after', same, bytes⟩ := quotes'
  rw [Span.mk.injEq] at bytes
  rw [← List.append_assoc, ← List.append_assoc] at same
  have whole := (eq_of_byte_count same bytes.2).1
  exact (eq_of_byte_count whole bytes.1).2

theorem quotes_ending (cs : List Char) : Quotes cs (Token.ending (byteCount cs)).span [] :=
  ⟨cs, [], by rw [List.nil_append, List.append_nil], by rw [List.append_nil]; rfl⟩

/-- A token stands where it says, and is what its first character and what follows it are classified as. -/
theorem stands_of_mem_from (start : Nat) (cs : List Char) :
    ∀ before, byteCount before = start → ∀ token ∈ tokensFrom start cs,
      ∃ front c rest, before ++ cs = front ++ c :: rest ∧ token.kind = (classify c rest).1 ∧
        token.text = c :: rest.take (classify c rest).2 ∧
        token.span = ⟨byteCount front, byteCount (front ++ token.text)⟩ := by
  fun_induction tokensFrom start cs with
  | case1 start => exact fun _ _ => List.forall_mem_nil _
  | case2 start c rest run text stop ih =>
      intro before place
      have split : c :: rest = text ++ rest.drop run.2 :=
        congrArg (c :: ·) (List.take_append_drop run.2 rest).symm
      have reached : byteCount (before ++ text) = stop := by rw [byteCount_append, place]
      refine List.forall_mem_cons.mpr ⟨⟨before, c, rest, rfl, rfl, rfl, ?_⟩, ?_⟩
      · rw [place, reached]
      · rw [split, ← List.append_assoc]
        exact ih _ reached

theorem stands_of_mem {cs : List Char} {token : Token} (found : token ∈ tokens cs) :
    ∃ front c rest, cs = front ++ c :: rest ∧ token.kind = (classify c rest).1 ∧
      token.text = c :: rest.take (classify c rest).2 ∧
      token.span = ⟨byteCount front, byteCount (front ++ token.text)⟩ :=
  stands_of_mem_from 0 cs [] rfl token found

theorem kind_ne_ending (c : Char) (rest : List Char) : (classify c rest).1 ≠ .ending := by
  fun_cases classify c rest <;> simp_all

theorem kind_ne_ending_of_mem {cs : List Char} {token : Token} (found : token ∈ tokens cs) : token.kind ≠ .ending := by
  obtain ⟨_, c, rest, -, kind, -⟩ := stands_of_mem found
  rw [kind]
  exact kind_ne_ending c rest

def Kind.mark? : Kind → Option Char
  | plus => some '+'
  | minus => some '-'
  | opening => some '\x7b'
  | closing => some '\x7d'
  | comma => some ','
  | _ => none

theorem sign_kind_mark (negative : Bool) : (signKind negative).mark? = some (signMark negative) := by
  cases negative <;> rfl

theorem classify_mark {c mark : Char} {rest : List Char} :
    (classify c rest).1.mark? = some mark → c = mark ∧ (classify c rest).2 = 0 := by
  fun_cases classify c rest <;> simp [Kind.mark?, eq_comm]

/-- What a token of a notation keeps of the notation. -/
structure Token.Placed (cs : List Char) (token : Token) : Prop where
  quoted : Quotes cs token.span token.text
  written : token.text ≠ []
  mark : ∀ mark, token.kind.mark? = some mark → token.text = [mark]

theorem placed_of_mem {cs : List Char} {token : Token} (found : token ∈ tokens cs) : token.Placed cs := by
  obtain ⟨front, c, rest, split, kind, text, span⟩ := stands_of_mem found
  refine ⟨⟨front, rest.drop (classify c rest).2, ?_, span⟩, ?_, ?_⟩
  · rw [text, List.cons_append, List.take_append_drop, split]
  · rw [text]
    exact List.cons_ne_nil _ _
  · intro mark marked
    rw [kind] at marked
    obtain ⟨same, alone⟩ := classify_mark marked
    rw [text, alone, List.take_zero, same]

end Tabletop.Notation
