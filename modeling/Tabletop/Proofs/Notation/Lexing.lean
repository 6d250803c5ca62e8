import Tabletop.Notation.Lexeme
import Tabletop.Roll.Canonical

/-!
# Texts that are tokens of their own

Where the longest token stops depends on what follows it. A text written in front of the right rest is lexed for itself,
and the rest as if it stood alone. A minus sign in front of the rest is right for every text.
-/

namespace Tabletop.Notation

set_option autoImplicit false

/-- In front of the rest the text is lexed for itself, into tokens with the property. -/
def Writes (text rest : List Char) (property : List Token → Prop) : Prop :=
  ∀ start, ∃ written stop, tokensFrom start (text ++ rest) = written ++ tokensFrom stop rest ∧ property written

section

variable {text more rest : List Char} {first second property : List Token → Prop}

theorem writes_nil (holds : property []) : Writes [] rest property := by
  intro start
  exact ⟨[], start, rfl, holds⟩

theorem writes_append (before : Writes text (more ++ rest) first) (after : Writes more rest second)
    (join : ∀ left right, first left → second right → property (left ++ right)) :
    Writes (text ++ more) rest property := by
  intro start
  obtain ⟨left, middle, lexed, ofLeft⟩ := before start
  obtain ⟨right, stop, lexed', ofRight⟩ := after middle
  refine ⟨left ++ right, stop, ?_, join left right ofLeft ofRight⟩
  rw [List.append_assoc, lexed, lexed', List.append_assoc]

theorem writes_mono (writes : Writes text rest first) (weaken : ∀ tokens, first tokens → property tokens) :
    Writes text rest property := by
  intro start
  obtain ⟨written, stop, lexed, holds⟩ := writes start
  exact ⟨written, stop, lexed, weaken written holds⟩

/-- The first token takes exactly the text. -/
theorem writes_token {c : Char} {kind : Kind} (run : classify c (text ++ rest) = (kind, text.length))
    (holds : ∀ span, property [⟨kind, c :: text, span⟩]) : Writes (c :: text) rest property := by
  intro start
  let stop := start + byteCount (c :: text)
  refine ⟨[⟨kind, c :: text, ⟨start, stop⟩⟩], stop, ?_, holds ⟨start, stop⟩⟩
  rw [List.cons_append, tokensFrom, run, List.take_left, List.drop_left, List.singleton_append]

theorem writes_cons {c : Char} {kind : Kind} (text : List Char)
    (run : classify c (text ++ (more ++ rest)) = (kind, text.length)) (after : Writes more rest second)
    (join : ∀ token tokens, token.kind = kind → second tokens → property (token :: tokens)) :
    Writes (c :: text ++ more) rest property := by
  have lead : Writes (c :: text) (more ++ rest) (fun tokens => ∃ token, tokens = [token] ∧ token.kind = kind) :=
    writes_token run fun _ => ⟨_, rfl, rfl⟩
  refine writes_append lead after ?_
  intro left right ofLeft ofRight
  obtain ⟨token, same, kind⟩ := ofLeft
  rw [same]
  exact join token right kind ofRight

theorem tokens_of_writes (writes : Writes text [] property) : property (tokens text) := by
  obtain ⟨written, stop, lexed, holds⟩ := writes 0
  rw [List.append_nil, tokensFrom, List.append_nil] at lexed
  rwa [tokens, lexed]

end

/-- What ends a run of digits. -/
def Stops (rest : List Char) : Prop := ∀ c ∈ rest.head?, c.isDigit = false

theorem stops_cons {c : Char} {rest : List Char} (stop : c.isDigit = false) : Stops (c :: rest) := by
  intro head found
  cases found
  exact stop

theorem digit_run_append {ds rest : List Char} (digits : ∀ d ∈ ds, d.isDigit) (stops : Stops rest) :
    digitRun (ds ++ rest) = ds.length := by
  have none : rest.takeWhile Char.isDigit = [] := by
    cases rest with
    | nil => rfl
    | cons c rest => exact List.takeWhile_cons_of_neg (by simp [stops c rfl])
  rw [digitRun, List.takeWhile_append_of_pos digits, none, List.append_nil]

theorem digit_not_alpha {d : Char} (digit : d.isDigit) : d.isAlpha = false := by
  have high : d.toNat ≤ 57 := (Char.isDigit_iff_toNat.mp digit).2
  have upper : d.isUpper = false := by
    apply decide_eq_false
    intro range
    have low : 65 ≤ d.toNat := range.1
    omega
  have lower : decide ('a'.val ≤ d.val) = false := by
    apply decide_eq_false
    intro above
    have low : 97 ≤ d.toNat := above
    omega
  change (d.isUpper || (decide ('a'.val ≤ d.val) && decide (d.val ≤ 'z'.val))) = false
  rw [upper, lower]
  rfl

theorem classify_digit {d : Char} (digit : d.isDigit) (rest : List Char) :
    classify d rest = (.number, digitRun rest) := by
  have notSpace : isSpace d = false := by
    simp only [isSpace, Bool.or_eq_false_iff, beq_eq_false_iff_ne]
    refine ⟨⟨⟨?_, ?_⟩, ?_⟩, ?_⟩ <;> intro same <;> subst same <;> cases digit
  unfold classify
  split
  case h_23 => rw [notSpace, digit]; rfl
  all_goals cases digit

section

variable {n : Nat} {rest : List Char} {property : List Token → Prop}

/-- The digits of a number are not empty, and what follows ends them. -/
theorem digits_cons (n : Nat) : ∃ d ds, Decimal.digits n = d :: ds ∧ d.isDigit ∧ ∀ c ∈ ds, c.isDigit := by
  have digits := fun c => @Decimal.isDigit_of_mem_digits n c
  cases written : Decimal.digits n with
  | nil => exact absurd written (Decimal.digits_ne_nil n)
  | cons d ds =>
      rw [written] at digits
      exact ⟨d, ds, rfl, digits d List.mem_cons_self, fun c found => digits c (List.mem_cons_of_mem _ found)⟩

theorem writes_digits (stops : Stops rest) (holds : ∀ span, property [⟨.number, Decimal.digits n, span⟩]) :
    Writes (Decimal.digits n) rest property := by
  obtain ⟨d, ds, written, digit, digits⟩ := digits_cons n
  rw [written] at holds ⊢
  have run := classify_digit digit (ds ++ rest)
  rw [digit_run_append digits stops] at run
  exact writes_token run holds

theorem classify_sides {d : Char} (digit : d.isDigit) (rest : List Char) :
    classify 'd' (d :: rest) = (.die, digitRun (d :: rest)) := by
  have notAlpha := digit_not_alpha digit
  unfold classify
  split <;> simp_all [dieRun]

theorem writes_sides (stops : Stops rest) (holds : ∀ span, property [⟨.die, 'd' :: Decimal.digits n, span⟩]) :
    Writes ('d' :: Decimal.digits n) rest property := by
  have length := digit_run_append (fun _ => @Decimal.isDigit_of_mem_digits n _) stops
  obtain ⟨d, ds, written, digit, _⟩ := digits_cons n
  rw [written] at length holds ⊢
  have run := classify_sides digit (ds ++ rest)
  rw [← List.cons_append, length] at run
  exact writes_token run holds

end

/-- What keeps a mark in front of it from growing. -/
def Unmarked (rest : List Char) : Prop := ∀ c ∈ rest.head?, c.isAlpha = false ∧ c ≠ '!'

theorem classify_reroll {rest : List Char} (unmarked : Unmarked rest) : classify 'r' rest = (.reroll false, 0) := by
  unfold classify
  split <;> simp_all [Unmarked]

theorem classify_exploding {rest : List Char} (unmarked : Unmarked rest) :
    classify '!' rest = (.explode .exploding, 0) := by
  unfold classify
  split <;> simp_all [Unmarked]

theorem classify_ascending {rest : List Char} (unmarked : Unmarked rest) :
    classify 's' rest = (.sort .ascending, 0) := by
  unfold classify
  split <;> simp_all [Unmarked]

theorem classify_explosion (kind : Explosion.Kind) {rest : List Char} (unmarked : Unmarked rest) :
    ∃ c text, kind.text = c :: text ∧ classify c (text ++ rest) = (.explode kind, text.length) := by
  cases kind with
  | exploding => exact ⟨'!', [], rfl, classify_exploding unmarked⟩
  | compounded => exact ⟨'!', ['!'], rfl, rfl⟩
  | penetrating => exact ⟨'!', ['p'], rfl, rfl⟩

theorem classify_relation (relation : Relation) (rest : List Char) :
    classify relation.sign rest = (.compare relation, 0) := by
  cases relation <;> rfl

theorem classify_limit (kind : Limit.Kind) (rest : List Char) :
    ∃ c c', kind.text = [c, c'] ∧ classify c (c' :: rest) = (.limit kind, digitRun rest + 1) := by
  cases kind <;> exact ⟨_, _, rfl, rfl⟩

/-- No token goes on with the character, unless it is white space behind white space. -/
structure Breaks (mark : Char) : Prop where
  alpha : mark.isAlpha = false
  digit : mark.isDigit = false
  exclamation : mark ≠ '!'

theorem take_while_before {p : Char → Bool} {mark : Char} (stop : p mark = false) (text right : List Char) :
    (text ++ mark :: right).takeWhile p = text.takeWhile p := by
  induction text with
  | nil => simp [stop]
  | cons c text ih => simp only [List.cons_append, List.takeWhile_cons, ih]

section

variable {mark : Char}

theorem digit_run_before (breaks : Breaks mark) (text right : List Char) :
    digitRun (text ++ mark :: right) = digitRun text := by
  rw [digitRun, take_while_before breaks.digit, digitRun]

theorem die_run_before (breaks : Breaks mark) (text right : List Char) :
    dieRun (text ++ mark :: right) = dieRun text := by
  cases text with
  | nil =>
      have none : digitRun (mark :: right) = 0 := digit_run_before breaks [] right
      change (if mark.isAlpha then 1 else digitRun (mark :: right)) = 0
      rw [breaks.alpha, none]
      rfl
  | cons c text => rw [List.cons_append, dieRun, dieRun, ← List.cons_append, digit_run_before breaks]

theorem classify_before (breaks : Breaks mark) {c : Char} (apart : isSpace c = false ∨ isSpace mark = false)
    (text right : List Char) : classify c (text ++ mark :: right) = classify c text := by
  have digits := digit_run_before breaks text right
  have dice := die_run_before breaks text right
  have spaces : isSpace c = false ∨ spaceRun (text ++ mark :: right) = spaceRun text := by
    refine apart.imp_right fun notSpace => ?_
    rw [spaceRun, take_while_before notSpace, spaceRun]
  have alpha := breaks.alpha
  have exclamation := breaks.exclamation
  cases text with
  | nil =>
      rw [List.nil_append] at *
      unfold classify
      rcases spaces with notSpace | spaces <;> split <;> simp_all
  | cons head text =>
      have amount := digit_run_before breaks text right
      rw [List.cons_append] at *
      unfold classify
      rcases spaces with notSpace | spaces <;> split <;> simp_all

end

theorem digit_run_le (text : List Char) : digitRun text ≤ text.length := (List.takeWhile_sublist _).length_le

theorem space_run_le (text : List Char) : spaceRun text ≤ text.length := (List.takeWhile_sublist _).length_le

theorem die_run_le (text : List Char) : dieRun text ≤ text.length := by
  unfold dieRun
  split
  · exact Nat.zero_le _
  · split
    · exact Nat.succ_le_succ (Nat.zero_le _)
    · exact digit_run_le _

theorem classify_length_le (c : Char) (rest : List Char) : (classify c rest).2 ≤ rest.length := by
  fun_cases classify c rest <;> simp [digit_run_le, space_run_le, die_run_le]

/-- A first token that is not changed by what stands behind the text leaves the rest of the text and that. -/
theorem tokens_cons_append {c : Char} {text more : List Char} (start : Nat)
    (same : classify c (text ++ more) = classify c text) :
    let run := classify c text
    let first := c :: text.take run.2
    let stop := start + byteCount first
    tokensFrom start (c :: text ++ more) =
      ⟨run.1, first, ⟨start, stop⟩⟩ :: tokensFrom stop (text.drop run.2 ++ more) := by
  have short := classify_length_le c text
  rw [List.cons_append, tokensFrom, same, List.take_append_of_le_length short, List.drop_append_of_le_length short]

/-- A minus always starts a token of its own. -/
theorem tokens_before_minus (start : Nat) (text right : List Char) :
    ∃ stop, tokensFrom start (text ++ '-' :: right) = tokensFrom start text ++ tokensFrom stop ('-' :: right) := by
  fun_induction tokensFrom start text with
  | case1 start => exact ⟨start, rfl⟩
  | case2 start c rest run text stop ih =>
      obtain ⟨stop', lexed⟩ := ih
      have apart : classify c (rest ++ '-' :: right) = classify c rest :=
        classify_before ⟨rfl, rfl, by decide⟩ (.inr rfl) rest right
      refine ⟨stop', ?_⟩
      rw [tokens_cons_append start apart]
      exact congrArg _ lexed

end Tabletop.Notation
