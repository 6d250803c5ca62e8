import Mathlib.Data.List.Chain
import Tabletop.Notation.Cursor
import Tabletop.Proofs.Notation.Places
import Tabletop.Proofs.Notation.Spacing

/-!
# Tokens tile the notation

The texts of each kind are said here on their own, without a word on how they are found. At every place the token is
the longest of all texts that the rest of the notation starts with, or a single character where there is none; a drop
token wins over a die. Laid end to end the tokens cover the notation, and the cursor hands out just these.
-/

namespace Tabletop.Notation

set_option autoImplicit false

/-- The texts of a kind. No text is illegal for itself, and none stands for the end. -/
inductive Kind.Matches : Kind → List Char → Prop where
  | space {text : List Char} (written : text ≠ []) (white : ∀ c ∈ text, isSpace c = true) : Matches .space text
  | number {text : List Char} (written : text ≠ []) (digits : ∀ c ∈ text, c.isDigit) : Matches .number text
  | die {letter : Char} {sides : List Char} (named : letter = 'd' ∨ letter = 'D') (digits : ∀ c ∈ sides, c.isDigit) :
      Matches .die (letter :: sides)
  | letteredDie {letter c : Char} (named : letter = 'd' ∨ letter = 'D') (alpha : c.isAlpha) : Matches .die [letter, c]
  | limit (kind : Limit.Kind) {amount : List Char} (digits : ∀ c ∈ amount, c.isDigit) :
      Matches (.limit kind) (kind.text ++ amount)
  | explosion (kind : Explosion.Kind) : Matches (.explode kind) kind.text
  | reroll : Matches (.reroll false) ['r']
  | rerollOnce : Matches (.reroll true) ['r', 'o']
  | ascending : Matches (.sort .ascending) ['s']
  | descending : Matches (.sort .descending) ['s', 'd']
  | relation (relation : Relation) : Matches (.compare relation) [relation.sign]
  | failure : Matches .failure ['f']
  | plus : Matches .plus ['+']
  | minus : Matches .minus ['-']
  | opening : Matches .opening ['\x7b']
  | closing : Matches .closing ['\x7d']
  | comma : Matches .comma [',']

/-- What the rest of a notation starts with: the longest text of any kind, where a limit wins over a die, or an illegal
character. -/
inductive Munched (rest : List Char) : Kind → List Char → Prop where
  | longest {kind : Kind} {text : List Char} (matched : kind.Matches text) (inside : text <+: rest)
      (longest : ∀ other more, Kind.Matches other more → more <+: rest → more.length ≤ text.length)
      (first : ∀ other, Kind.Matches other text → other = kind ∨ (∃ limit, kind = .limit limit) ∧ other = .die) :
      Munched rest kind text
  | illegal {c : Char} {more : List Char} (starts : rest = c :: more)
      (none : ∀ kind text, Kind.Matches kind text → ¬ text <+: rest) : Munched rest .illegal [c]

theorem munched_unique {rest : List Char} {kind kind' : Kind} {text text' : List Char}
    (munched : Munched rest kind text) (munched' : Munched rest kind' text') : kind = kind' ∧ text = text' := by
  cases munched with
  | longest matched inside longest first =>
      cases munched' with
      | longest matched' inside' longest' first' =>
          have shorter := longest' _ _ matched inside
          have shorter' := longest _ _ matched' inside'
          have same : text = text' :=
            (List.prefix_of_prefix_length_le inside inside' shorter).eq_of_length (Nat.le_antisymm shorter shorter')
          subst same
          rcases first' kind matched with same | ⟨⟨limit, isLimit⟩, isDie⟩
          · exact ⟨same, rfl⟩
          · rcases first kind' matched' with same | ⟨⟨limit', isLimit'⟩, -⟩
            · exact ⟨same.symm, rfl⟩
            · cases isDie.symm.trans isLimit'
      | illegal _ none => exact absurd inside (none _ _ matched)
  | illegal starts none =>
      cases munched' with
      | longest matched' inside' => exact absurd inside' (none _ _ matched')
      | illegal starts' =>
          cases starts.symm.trans starts'
          exact ⟨rfl, rfl⟩

theorem written_of_matches {kind : Kind} {text : List Char} (matched : kind.Matches text) : text ≠ [] := by
  cases matched with
  | space written => exact written
  | number written => exact written
  | limit kind => cases kind <;> exact List.cons_ne_nil _ _
  | explosion kind => cases kind <;> exact List.cons_ne_nil _ _
  | _ => exact List.cons_ne_nil _ _

theorem take_run (p : Char → Bool) (rest : List Char) : rest.take (rest.takeWhile p).length = rest.takeWhile p :=
  (List.prefix_iff_eq_take.mp (List.takeWhile_prefix p)).symm

theorem matches_digits (rest : List Char) : ∀ c ∈ rest.take (digitRun rest), c.isDigit := by
  rw [digitRun, take_run]
  exact List.all_eq_true.mp List.all_takeWhile

theorem matches_die {letter : Char} (named : letter = 'd' ∨ letter = 'D') (rest : List Char) :
    Kind.Matches .die (letter :: rest.take (dieRun rest)) := by
  cases rest with
  | nil => exact .die named (List.forall_mem_nil _)
  | cons c rest =>
      cases alpha : c.isAlpha with
      | true =>
          have run : dieRun (c :: rest) = 1 := if_pos alpha
          rw [run]
          exact .letteredDie named alpha
      | false =>
          have run : dieRun (c :: rest) = digitRun (c :: rest) := if_neg (by simp [alpha])
          rw [run]
          exact .die named (matches_digits _)

theorem classify_matches (c : Char) (rest : List Char) :
    (classify c rest).1.Matches (c :: rest.take (classify c rest).2) ∨ classify c rest = (.illegal, 0) := by
  fun_cases classify c rest
  case case1 | case2 | case5 | case6 => exact .inl (.limit _ (matches_digits _))
  case case3 => exact .inl (matches_die (.inl rfl) rest)
  case case4 => exact .inl (matches_die (.inr rfl) rest)
  case case7 | case8 | case9 => exact .inl (.explosion _)
  case case10 => exact .inl .rerollOnce
  case case11 => exact .inl .reroll
  case case12 => exact .inl .descending
  case case13 => exact .inl .ascending
  case case14 => exact .inl .failure
  case case15 => exact .inl .plus
  case case16 => exact .inl .minus
  case case17 | case18 | case19 => exact .inl (.relation _)
  case case20 => exact .inl .opening
  case case21 => exact .inl .closing
  case case22 => exact .inl .comma
  case case23 white _ _ _ _ _ _ _ _ =>
      refine .inl (.space (List.cons_ne_nil _ _) (List.forall_mem_cons.mpr ⟨white, ?_⟩))
      rw [spaceRun, take_run]
      exact List.all_eq_true.mp List.all_takeWhile
  case case24 digit _ _ _ _ _ _ _ _ =>
      exact .inl (.number (List.cons_ne_nil _ _) (List.forall_mem_cons.mpr ⟨digit, matches_digits rest⟩))
  case case25 => exact .inr rfl

/-- A token of this kind takes what is found at least to the end of a text, and for a text as long the kind is the one
that is found, unless a limit is found and the text could be a die. -/
structure Covers (found : Kind × Nat) (kind : Kind) (length : Nat) : Prop where
  reaches : length ≤ found.2
  first : length = found.2 → kind = found.1 ∨ (∃ limit, found.1 = .limit limit) ∧ kind = .die

theorem covers_own {kind : Kind} {length run : Nat} (reaches : length ≤ run) : Covers (kind, run) kind length :=
  ⟨reaches, fun _ => .inl rfl⟩

theorem covers_die_by_limit {limit : Limit.Kind} {length run : Nat} (reaches : length ≤ run) :
    Covers (.limit limit, run) .die length :=
  ⟨reaches, fun _ => .inr ⟨⟨limit, rfl⟩, rfl⟩⟩

theorem covers_first {found : Kind × Nat} {kind : Kind} (alone : found.2 = 0 → kind = found.1) : Covers found kind 0 :=
  ⟨Nat.zero_le _, fun short => .inl (alone short.symm)⟩

theorem length_le_run {p : Char → Bool} {text : List Char} (all : ∀ c ∈ text, p c = true) (more : List Char) :
    text.length ≤ ((text ++ more).takeWhile p).length := by
  rw [List.takeWhile_append_of_pos all, List.length_append]
  exact Nat.le_add_right _ _

theorem length_le_die_run {sides : List Char} (digits : ∀ c ∈ sides, c.isDigit) (more : List Char) :
    sides.length ≤ dieRun (sides ++ more) := by
  cases sides with
  | nil => exact Nat.zero_le _
  | cons d sides =>
      have alpha := digit_not_alpha (digits d List.mem_cons_self)
      rw [List.cons_append, dieRun, if_neg (by simp [alpha])]
      exact length_le_run digits more

theorem die_covers {letter : Char} (named : letter = 'd' ∨ letter = 'D') {rest : List Char} {length : Nat}
    (reaches : length ≤ dieRun rest) : Covers (classify letter rest) .die length := by
  rcases named with rfl | rfl
  · cases rest with
    | nil => exact covers_own reaches
    | cons c rest =>
        have single (alpha : c.isAlpha = true) : dieRun (c :: rest) = 1 := if_pos alpha
        by_cases high : c = 'h'
        · subst high
          exact covers_die_by_limit (Nat.le_trans reaches (Nat.le_add_left 1 _))
        · by_cases low : c = 'l'
          · subst low
            exact covers_die_by_limit (Nat.le_trans reaches (Nat.le_add_left 1 _))
          · have die : classify 'd' (c :: rest) = (.die, dieRun (c :: rest)) := by
              unfold classify
              split <;> simp_all
            rw [die]
            exact covers_own reaches
  · exact covers_own reaches

/-- No text of any kind reaches beyond the token that is found, whatever stands behind it. -/
theorem classify_covers {kind : Kind} {c : Char} {text : List Char} (matched : kind.Matches (c :: text))
    (more : List Char) : Covers (classify c (text ++ more)) kind text.length := by
  generalize whole : c :: text = cs at matched
  cases matched with
  | space written white =>
      subst whole
      obtain ⟨white, all⟩ := List.forall_mem_cons.mp white
      rw [classify_space white]
      exact covers_own (length_le_run all more)
  | number written digits =>
      subst whole
      obtain ⟨digit, all⟩ := List.forall_mem_cons.mp digits
      rw [classify_digit digit]
      exact covers_own (length_le_run all more)
  | die named digits =>
      cases whole
      exact die_covers named (length_le_die_run digits more)
  | @letteredDie letter next named alpha =>
      cases whole
      have run : dieRun (next :: more) = 1 := if_pos alpha
      exact die_covers named (Nat.le_of_eq run.symm)
  | @limit limit amount digits =>
      obtain ⟨first, second, written, found⟩ := classify_limit limit (amount ++ more)
      rw [written] at whole
      cases whole
      change Covers (classify c (second :: (amount ++ more))) _ (amount.length + 1)
      rw [found]
      exact covers_own (Nat.succ_le_succ (length_le_run digits more))
  | explosion explosion =>
      cases explosion with
      | exploding =>
          cases whole
          apply covers_first
          unfold classify
          split <;> simp_all
      | _ =>
          cases whole
          exact covers_own (Nat.le_refl 1)
  | reroll =>
      cases whole
      apply covers_first
      unfold classify
      split <;> simp_all
  | ascending =>
      cases whole
      apply covers_first
      unfold classify
      split <;> simp_all
  | relation relation =>
      cases whole
      rw [classify_relation]
      exact covers_own (Nat.le_refl 0)
  | _ =>
      cases whole
      exact covers_own (Nat.le_refl _)

theorem munched_classify (c : Char) (rest : List Char) :
    Munched (c :: rest) (classify c rest).1 (c :: rest.take (classify c rest).2) := by
  have covered : ∀ kind text, Kind.Matches kind text → text <+: c :: rest →
      ∃ tail, text = c :: tail ∧ Covers (classify c rest) kind tail.length := by
    intro kind text matched inside
    obtain ⟨more, split⟩ := inside
    cases text with
    | nil => exact absurd rfl (written_of_matches matched)
    | cons first tail =>
        rw [List.cons_append, List.cons.injEq] at split
        obtain ⟨rfl, rfl⟩ := split
        exact ⟨tail, rfl, classify_covers matched more⟩
  have taken : (rest.take (classify c rest).2).length = (classify c rest).2 :=
    List.length_take_of_le (classify_length_le c rest)
  rcases classify_matches c rest with matched | illegal
  · refine .longest matched ?_ ?_ ?_
    · exact (List.prefix_cons_inj c).mpr (List.take_prefix _ _)
    · intro other more ofOther inside
      obtain ⟨tail, rfl, covers⟩ := covered other more ofOther inside
      rw [List.length_cons, List.length_cons, taken]
      exact Nat.succ_le_succ covers.reaches
    · intro other ofOther
      obtain ⟨tail, same, covers⟩ := covered other _ ofOther ((List.prefix_cons_inj c).mpr (List.take_prefix _ _))
      cases same
      exact covers.first taken
  · rw [illegal, List.take_zero]
    refine .illegal rfl ?_
    intro kind text matched inside
    obtain ⟨tail, -, covers⟩ := covered kind text matched inside
    rw [illegal] at covers
    rcases covers.first (Nat.le_zero.mp covers.reaches) with rfl | ⟨⟨limit, isLimit⟩, -⟩
    · cases matched
    · cases isLimit

/-- The tokens cover the notation from its first byte to its last, each of them with the text at its span, which is the
one that the rest of the notation asks for there. -/
structure Tiled (cs : List Char) (tokens : List Token) : Prop where
  joined : tokens.flatMap (·.text) = cs
  starts : ∀ token ∈ tokens.head?, token.span.start = 0
  contiguous : tokens.IsChain fun left right => left.span.stop = right.span.start
  stops : ∀ token ∈ tokens.getLast?, token.span.stop = byteCount cs
  filled : ∀ token ∈ tokens, token.span.start < token.span.stop
  munched : ∀ token ∈ tokens, ∃ before after, cs = before ++ (token.text ++ after) ∧
    token.span = ⟨byteCount before, byteCount (before ++ token.text)⟩ ∧
    ∀ kind text, Munched (token.text ++ after) kind text ↔ kind = token.kind ∧ text = token.text

theorem start_of_head {start : Nat} {cs : List Char} {token : Token} (first : token ∈ (tokensFrom start cs).head?) :
    token.span.start = start := by
  cases cs with
  | nil =>
      rw [tokensFrom] at first
      cases first
  | cons c rest =>
      rw [tokensFrom] at first
      cases first
      rfl

theorem contiguous_from (start : Nat) (cs : List Char) :
    (tokensFrom start cs).IsChain fun left right => left.span.stop = right.span.start := by
  fun_induction tokensFrom start cs with
  | case1 start => exact .nil
  | case2 start c rest run text stop ih =>
      refine List.isChain_cons.mpr ⟨?_, ih⟩
      intro next first
      exact (start_of_head first).symm

theorem stop_of_last (start : Nat) (cs : List Char) :
    ∀ token ∈ (tokensFrom start cs).getLast?, token.span.stop = start + byteCount cs := by
  fun_induction tokensFrom start cs with
  | case1 start => exact fun _ last => by cases last
  | case2 start c rest run text stop ih =>
      have split : byteCount (c :: rest) = byteCount text + byteCount (rest.drop run.2) := by
        rw [← byteCount_append, List.cons_append, List.take_append_drop]
      intro token last
      rw [List.getLast?_cons] at last
      cases behind : (tokensFrom stop (rest.drop run.2)).getLast? with
      | none =>
          have empty : rest.drop run.2 = [] := by
            rw [← flatMap_text_tokensFrom stop (rest.drop run.2), List.getLast?_eq_none_iff.mp behind]
            rfl
          rw [behind] at last
          cases last
          rw [split, empty]
          rfl
      | some other =>
          rw [behind] at last
          cases last
          change other.span.stop = _
          rw [ih other behind, split, Nat.add_assoc]

theorem tiled_tokens (cs : List Char) : Tiled cs (tokens cs) where
  joined := flatMap_text_tokensFrom 0 cs
  starts _ := start_of_head
  contiguous := contiguous_from 0 cs
  stops token last := (stop_of_last 0 cs token last).trans (Nat.zero_add _)
  filled token found := by
    have placed := placed_of_mem found
    obtain ⟨before, after, -, span⟩ := placed.quoted
    have filled := byte_count_pos placed.written
    rw [span, byteCount_append]
    exact Nat.lt_add_of_pos_right filled
  munched token found := by
    obtain ⟨front, c, rest, split, kind, text, span⟩ := stands_of_mem found
    have munched := munched_classify c rest
    have whole : c :: rest = token.text ++ rest.drop (classify c rest).2 := by
      rw [text, List.cons_append, List.take_append_drop]
    rw [← kind, ← text, whole] at munched
    refine ⟨front, rest.drop (classify c rest).2, whole ▸ split, span, ?_⟩
    intro other more
    constructor
    · exact fun munched' => munched_unique munched' munched
    · rintro ⟨rfl, rfl⟩
      exact munched

theorem answers_finished {cursor : Cursor} (forward : cursor.pushedBack = false) (finished : cursor.ahead = [])
    (count : Nat) : cursor.answers (List.replicate count .next) = List.replicate count .finished := by
  induction count generalizing cursor with
  | zero => rfl
  | succ count ih =>
      obtain ⟨ahead, length, last, pushedBack⟩ := cursor
      subst forward finished
      rw [List.replicate_succ, List.replicate_succ, Cursor.answers]
      exact congrArg (_ :: ·) (ih rfl rfl)

theorem answers_next {cursor : Cursor} (forward : cursor.pushedBack = false)
    (inner : ∀ token ∈ cursor.ahead, token.kind ≠ .ending) (count : Nat) :
    cursor.answers (List.replicate (cursor.ahead.length + count) .next) =
      cursor.ahead.map .token ++ List.replicate count .finished := by
  obtain ⟨ahead, length, last, pushedBack⟩ := cursor
  subst forward
  induction ahead generalizing last with
  | nil =>
      rw [List.length_nil, Nat.zero_add]
      exact answers_finished rfl rfl count
  | cons token ahead ih =>
      obtain ⟨solid, inner⟩ := List.forall_mem_cons.mp inner
      rw [List.length_cons, Nat.succ_add, List.replicate_succ, Cursor.answers]
      have acted : (Cursor.act ⟨token :: ahead, length, last, false⟩ .next) =
          (.token token, ⟨ahead, length, some token, false⟩) := by
        simp [Cursor.act, Cursor.next, Cursor.scan, Cursor.fresh, solid]
      rw [acted]
      exact congrArg (_ :: ·) (ih (some token) inner)

/-- The tokens of a notation tile it, each of them the longest match at its place, and these are what a cursor hands out
one after the other before it is finished for good. -/
theorem tokens_tile (text : String) :
    Tiled text.toList (tokens text.toList) ∧
      ∀ count, (Cursor.start text.toList).answers
          (List.replicate ((tokens text.toList).length + count) .next) =
        (tokens text.toList).map .token ++ List.replicate count .finished := by
  have inner : ∀ token ∈ (Cursor.start text.toList).ahead, token.kind ≠ .ending := fun _ => kind_ne_ending_of_mem
  exact ⟨tiled_tokens text.toList, answers_next rfl inner⟩

end Tabletop.Notation
