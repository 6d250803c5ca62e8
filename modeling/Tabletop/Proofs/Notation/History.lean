import Mathlib.Data.List.Induction
import Tabletop.Notation.Cursor

/-!
# The history of a cursor

Moves expand into touches: single reads, each with the token that it returned, and pushbacks. The touches alone say what
the next read returns. It repeats the last one if a pushback came in between, or if it is the second read of all and a
pushback was waiting for the first; any other read goes on with the notation. So the reads that repeat nothing are the
tokens of the notation, one after the other, and then its end.
-/

namespace Tabletop.Notation

set_option autoImplicit false

/-- The tokens of a notation by their numbers, white space included, and the end behind them for ever. -/
def stream (cs : List Char) (n : Nat) : Token := (tokens cs)[n]?.getD (.ending (byteCount cs))

namespace Cursor

inductive Touch where
  | read (token : Token)
  | unscan
deriving DecidableEq

/-- The touches that a move makes, and its answer. -/
inductive Makes : Move → List Touch → Answer → Prop where
  | scan (token : Token) : Makes .scan [.read token] (.token token)
  | skip {token : Token} (solid : token.isSpace = false) : Makes .skip [.read token] (.token token)
  | skipPast {space : Token} {touches : List Touch} {answer : Answer} (blank : space.isSpace = true)
      (rest : Makes .skip touches answer) : Makes .skip (.read space :: touches) answer
  | next (token : Token) : Makes .next [.read token] (if token.kind = .ending then .finished else .token token)
  | unscan : Makes .unscan [.unscan] .pushedBack

inductive Expands : List Move → List Touch → List Answer → Prop where
  | nil : Expands [] [] []
  | cons {move : Move} {moves : List Move} {touches others : List Touch} {answer : Answer} {answers : List Answer}
      (first : Makes move touches answer) (rest : Expands moves others answers) :
      Expands (move :: moves) (touches ++ others) (answer :: answers)

namespace Touch

def token? : Touch → Option Token
  | read token => some token
  | unscan => none

def reads (history : List Touch) : List Token := history.filterMap token?

/-- A pushback waits for the next read: it is the last touch, because nothing else can stand between two reads, or it
came before the only read. -/
def Waits (history : List Touch) : Prop :=
  history.getLast? = some unscan ∨ (reads history).length = 1 ∧ history.head? = some unscan

/-- The next read returns the last token again. -/
def Repeats (history : List Touch) : Prop := reads history ≠ [] ∧ Waits history

instance (history : List Touch) : Decidable (Waits history) := inferInstanceAs (Decidable (_ ∨ _))

instance (history : List Touch) : Decidable (Repeats history) := inferInstanceAs (Decidable (_ ∧ _))

def newBehind (history : List Touch) : List Touch → List Token
  | [] => []
  | unscan :: touches => newBehind (history ++ [unscan]) touches
  | read token :: touches =>
    let others := newBehind (history ++ [read token]) touches
    if Repeats history then others else token :: others

/-- The tokens returned so far, each only once. -/
def new (history : List Touch) : List Token := newBehind [] history

/-- What a read returns behind the history. -/
structure Due (cs : List Char) (history : List Touch) (token : Token) : Prop where
  first : reads history = [] → token = stream cs 0
  again : Repeats history → (reads history).getLast? = some token
  further : reads history ≠ [] → ¬ Repeats history → token = stream cs (new history).length

/-- Behind the history, every read of the touches returns what is due. -/
def Lawful (cs : List Char) (history : List Touch) : List Touch → Prop
  | [] => True
  | unscan :: touches => Lawful cs (history ++ [unscan]) touches
  | read token :: touches => Due cs history token ∧ Lawful cs (history ++ [read token]) touches

end Touch

open Touch

variable {cs : List Char} {history : List Touch} {cursor : Cursor}

namespace Touch

variable {token : Token} {touches others : List Touch}

theorem reads_unscan (history : List Touch) : reads (history ++ [unscan]) = reads history := by
  simp [reads, token?]

theorem reads_read (history : List Touch) (token : Token) :
    reads (history ++ [read token]) = reads history ++ [token] := by
  simp [reads, token?]

theorem new_behind_append (history touches others : List Touch) :
    newBehind history (touches ++ others) = newBehind history touches ++ newBehind (history ++ touches) others := by
  induction touches generalizing history with
  | nil => rw [List.append_nil]; rfl
  | cons touch touches ih =>
      cases touch with
      | unscan =>
          simp only [List.cons_append, newBehind, ih, List.append_assoc, List.nil_append]
      | read token =>
          simp only [List.cons_append, newBehind, ih, List.append_assoc, List.nil_append]
          split <;> rfl

theorem new_unscan (history : List Touch) : new (history ++ [unscan]) = new history := by
  rw [new, new_behind_append]
  exact List.append_nil _

theorem new_read (history : List Touch) (token : Token) :
    new (history ++ [read token]) = if Repeats history then new history else new history ++ [token] := by
  rw [new, new_behind_append, List.nil_append, newBehind]
  split
  · exact List.append_nil _
  · rfl

theorem lawful_append :
    Lawful cs history (touches ++ others) ↔ Lawful cs history touches ∧ Lawful cs (history ++ touches) others := by
  induction touches generalizing history with
  | nil => simp [Lawful]
  | cons touch touches ih =>
      cases touch with
      | unscan => simp [Lawful, ih]
      | read token => simp [Lawful, ih, and_assoc]

theorem new_of_unread (unread : reads history = []) : new history = [] := by
  induction history using List.reverseRecOn with
  | nil => rfl
  | append_singleton history touch ih =>
      cases touch with
      | unscan =>
          rw [reads_unscan] at unread
          rw [new_unscan]
          exact ih unread
      | read token => simp [reads_read] at unread

theorem due_of_not_repeats (fresh : ¬ Repeats history) : Due cs history (stream cs (new history).length) where
  first unread := by rw [new_of_unread unread]; rfl
  again repeated := absurd repeated fresh
  further _ _ := rfl

theorem due_unique {token' : Token} (due : Due cs history token) (due' : Due cs history token') : token = token' := by
  by_cases unread : reads history = []
  · rw [due.first unread, due'.first unread]
  · by_cases repeated : Repeats history
    · exact Option.some.inj ((due.again repeated).symm.trans (due'.again repeated))
    · rw [due.further unread repeated, due'.further unread repeated]

end Touch

/-- What the cursor has in store tells what was new, what was read last and whether a pushback waits. -/
structure Holds (cs : List Char) (history : List Touch) (cursor : Cursor) : Prop where
  ahead : cursor.ahead = (tokens cs).drop (new history).length
  length : cursor.length = byteCount cs
  last : cursor.last = (reads history).getLast?
  pushedBack : cursor.pushedBack = true ↔ Waits history
  inOrder : new history = (List.range (new history).length).map (stream cs)

theorem start_holds (cs : List Char) : Holds cs [] (start cs) where
  ahead := rfl
  length := rfl
  last := rfl
  pushedBack := by simp [start, Waits, reads]
  inOrder := rfl

theorem unscan_holds (holds : Holds cs history cursor) : Holds cs (history ++ [.unscan]) cursor.unscan where
  ahead := by rw [new_unscan]; exact holds.ahead
  length := holds.length
  last := by rw [reads_unscan]; exact holds.last
  pushedBack := by simp [unscan, Waits]
  inOrder := by rw [new_unscan]; exact holds.inOrder

theorem fresh_eq (holds : Holds cs history cursor) :
    cursor.fresh = (stream cs (new history).length,
      { cursor with
        ahead := (tokens cs).drop ((new history).length + 1)
        last := some (stream cs (new history).length) }) := by
  have ahead := holds.ahead
  unfold fresh stream
  cases rest : cursor.ahead with
  | nil =>
      rw [rest] at ahead
      have passed : (tokens cs).length ≤ (new history).length := List.drop_eq_nil_iff.mp ahead.symm
      rw [List.getElem?_eq_none passed, List.drop_eq_nil_of_le (Nat.le_succ_of_le passed), holds.length]
      simp only [Option.getD_none]
  | cons token others =>
      rw [rest] at ahead
      have here : (tokens cs)[(new history).length]? = some token := by
        rw [← List.head?_drop, ← ahead]
        rfl
      rw [here, ← List.drop_drop, ← ahead]
      rfl

theorem scan_again {token : Token} (waits : cursor.pushedBack = true) (last : cursor.last = some token) :
    cursor.scan = (token, { cursor with pushedBack := false }) := by
  rw [scan, waits, last]

theorem scan_fresh (fresh : cursor.pushedBack = false ∨ cursor.last = none) : cursor.scan = cursor.fresh := by
  unfold scan
  split
  · rename_i waits last
    rcases fresh with idle | unread
    · cases waits.symm.trans idle
    · cases last.symm.trans unread
  · rfl

theorem eq_unscan_of_unread (unread : reads history = []) : ∀ touch ∈ history, touch = .unscan := by
  intro touch found
  cases touch with
  | unscan => rfl
  | read token => exact absurd (List.filterMap_eq_nil_iff.mp unread _ found) (by simp [token?])

theorem waits_read (history : List Touch) (token : Token) :
    Waits (history ++ [.read token]) ↔ reads history = [] ∧ Waits history := by
  cases history with
  | nil => simp [Waits]
  | cons touch history =>
      have behind : (reads (touch :: history ++ [.read token])).length = 1 ↔ reads (touch :: history) = [] := by
        rw [reads_read, List.length_append, List.length_singleton, Nat.add_eq_right, List.length_eq_zero_iff]
      rw [Waits, List.getLast?_concat, behind]
      constructor
      · rintro (last | ⟨unread, _⟩)
        · cases last
        · refine ⟨unread, .inl ?_⟩
          rw [List.getLast?_eq_some_getLast (List.cons_ne_nil _ _),
            eq_unscan_of_unread unread _ (List.getLast_mem (List.cons_ne_nil _ _))]
      · rintro ⟨unread, _⟩
        exact .inr ⟨unread, congrArg some (eq_unscan_of_unread unread _ List.mem_cons_self)⟩

theorem scan_holds (holds : Holds cs history cursor) :
    Due cs history cursor.scan.1 ∧ Holds cs (history ++ [.read cursor.scan.1]) cursor.scan.2 := by
  by_cases repeated : Repeats history
  · obtain ⟨token, last⟩ := Option.ne_none_iff_exists'.mp (mt List.getLast?_eq_none_iff.mp repeated.1)
    rw [scan_again (holds.pushedBack.mpr repeated.2) (holds.last.trans last)]
    have old : new (history ++ [.read token]) = new history := by rw [new_read, if_pos repeated]
    refine ⟨⟨fun unread => absurd unread repeated.1, fun _ => last, fun _ never => absurd repeated never⟩, ?_⟩
    constructor
    · rw [old]
      exact holds.ahead
    · exact holds.length
    · rw [reads_read, List.getLast?_concat]
      exact holds.last.trans last
    · rw [waits_read]
      exact iff_of_false Bool.false_ne_true fun unread => repeated.1 unread.1
    · rw [old]
      exact holds.inOrder
  · have fresh : cursor.pushedBack = false ∨ cursor.last = none := by
      by_cases unread : reads history = []
      · refine .inr (holds.last.trans ?_)
        rw [unread]
        rfl
      · exact .inl (Bool.eq_false_iff.mpr fun waits => repeated ⟨unread, holds.pushedBack.mp waits⟩)
    rw [scan_fresh fresh, fresh_eq holds]
    have more : new (history ++ [.read (stream cs (new history).length)]) =
        new history ++ [stream cs (new history).length] := by rw [new_read, if_neg repeated]
    refine ⟨due_of_not_repeats repeated, ?_⟩
    constructor
    · rw [more, List.length_append]
      rfl
    · exact holds.length
    · rw [reads_read, List.getLast?_concat]
    · rw [waits_read, holds.pushedBack]
      exact ⟨fun waits => ⟨by_contra fun read => repeated ⟨read, waits⟩, waits⟩, And.right⟩
    · rw [more, List.length_append, List.length_singleton, List.range_succ, List.map_append, ← holds.inOrder]
      rfl

theorem skip_holds (holds : Holds cs history cursor) :
    ∃ touches, Makes .skip touches (.token cursor.skip.1) ∧ Lawful cs history touches ∧
      Holds cs (history ++ touches) cursor.skip.2 := by
  fun_induction skip cursor generalizing history with
  | case1 cursor blank ih =>
      obtain ⟨due, held⟩ := scan_holds holds
      obtain ⟨touches, makes, lawful, ended⟩ := ih held
      refine ⟨_, .skipPast blank makes, ⟨due, lawful⟩, ?_⟩
      rwa [List.append_assoc] at ended
  | case2 cursor solid =>
      obtain ⟨due, held⟩ := scan_holds holds
      exact ⟨_, .skip (Bool.eq_false_iff.mpr solid), ⟨due, trivial⟩, held⟩

theorem act_holds (holds : Holds cs history cursor) (move : Move) :
    ∃ touches, Makes move touches (cursor.act move).1 ∧ Lawful cs history touches ∧
      Holds cs (history ++ touches) (cursor.act move).2 := by
  cases move with
  | scan =>
      obtain ⟨due, held⟩ := scan_holds holds
      exact ⟨_, .scan _, ⟨due, trivial⟩, held⟩
  | skip => exact skip_holds holds
  | next =>
      obtain ⟨due, held⟩ := scan_holds holds
      have acted : cursor.act .next =
          (if cursor.scan.1.kind = .ending then .finished else .token cursor.scan.1, cursor.scan.2) := by
        simp only [act, next]
        by_cases ended : cursor.scan.1.kind = .ending
        · rw [if_pos ended, if_pos ended]
        · rw [if_neg ended, if_neg ended]
      rw [acted]
      exact ⟨_, .next _, ⟨due, trivial⟩, held⟩
  | unscan => exact ⟨_, .unscan, trivial, unscan_holds holds⟩

theorem answers_hold (holds : Holds cs history cursor) (moves : List Move) :
    ∃ touches, Expands moves touches (cursor.answers moves) ∧ Lawful cs history touches ∧
      ∃ later, Holds cs (history ++ touches) later := by
  induction moves generalizing history cursor with
  | nil => exact ⟨[], .nil, trivial, cursor, by rwa [List.append_nil]⟩
  | cons move moves ih =>
      obtain ⟨touches, makes, lawful, held⟩ := act_holds holds move
      obtain ⟨others, expands, lawful', later, ended⟩ := ih held
      refine ⟨touches ++ others, .cons makes expands, lawful_append.mpr ⟨lawful, lawful'⟩, later, ?_⟩
      rwa [List.append_assoc] at ended

section

variable {move : Move} {moves : List Move} {touches touches' : List Touch} {answer answer' : Answer}
  {answers answers' : List Answer}

theorem makes_unique (makes : Makes move touches answer) (makes' : Makes move touches' answer')
    (lawful : Lawful cs history touches) (lawful' : Lawful cs history touches') :
    touches' = touches ∧ answer' = answer := by
  induction makes generalizing history touches' answer' with
  | scan token =>
      cases makes' with
      | scan token' =>
          cases due_unique lawful.1 lawful'.1
          exact ⟨rfl, rfl⟩
  | @skip token solid =>
      cases makes' with
      | @skip token' solid' =>
          cases due_unique lawful.1 lawful'.1
          exact ⟨rfl, rfl⟩
      | skipPast blank rest =>
          cases due_unique lawful.1 lawful'.1
          cases solid.symm.trans blank
  | skipPast blank rest ih =>
      cases makes' with
      | skip solid =>
          cases due_unique lawful.1 lawful'.1
          cases solid.symm.trans blank
      | skipPast blank' rest' =>
          cases due_unique lawful.1 lawful'.1
          obtain ⟨same, told⟩ := ih rest' lawful.2 lawful'.2
          exact ⟨congrArg _ same, told⟩
  | next token =>
      cases makes' with
      | next token' =>
          cases due_unique lawful.1 lawful'.1
          exact ⟨rfl, rfl⟩
  | unscan =>
      cases makes'
      exact ⟨rfl, rfl⟩

theorem expands_unique (expands : Expands moves touches answers) (expands' : Expands moves touches' answers')
    (lawful : Lawful cs history touches) (lawful' : Lawful cs history touches') :
    touches' = touches ∧ answers' = answers := by
  induction expands generalizing history touches' answers' with
  | nil =>
      cases expands'
      exact ⟨rfl, rfl⟩
  | cons first rest ih =>
      cases expands' with
      | cons first' rest' =>
          obtain ⟨before, behind⟩ := lawful_append.mp lawful
          obtain ⟨before', behind'⟩ := lawful_append.mp lawful'
          obtain ⟨rfl, rfl⟩ := makes_unique first first' before before'
          obtain ⟨rfl, rfl⟩ := ih rest' behind behind'
          exact ⟨rfl, rfl⟩

end

/-- Whatever moves a new cursor makes, they expand into touches of which every read returns what is due: the last token
again behind a pushback, and otherwise the one behind all that have been returned. No other touches and no other answers
keep this law, and the reads that repeat nothing return the notation token by token. -/
theorem answers_by_history (cs : List Char) (moves : List Move) :
    ∃ touches, Expands moves touches ((start cs).answers moves) ∧ Lawful cs [] touches ∧
      new touches = (List.range (new touches).length).map (stream cs) ∧
      ∀ touches' answers, Expands moves touches' answers → Lawful cs [] touches' →
        touches' = touches ∧ answers = (start cs).answers moves := by
  obtain ⟨touches, expands, lawful, later, holds⟩ := answers_hold (start_holds cs) moves
  refine ⟨touches, expands, lawful, holds.inOrder, fun touches' answers expands' lawful' => ?_⟩
  exact expands_unique expands expands' lawful lawful'

/-- A pushback before the first read is kept for the second one, and two in a row are one. -/
example :
    let three : Token := ⟨.number, ['3'], ⟨0, 1⟩⟩
    let die : Token := ⟨.die, ['d', '6'], ⟨2, 4⟩⟩
    (start "3 d6".toList).answers [.unscan, .scan, .scan, .skip, .unscan, .unscan, .scan, .next] =
      [.pushedBack, .token three, .token three, .token die, .pushedBack, .pushedBack, .token die, .finished] := by
  cbv

end Cursor

end Tabletop.Notation
