import Tabletop.Notation.Descent
import Tabletop.Proofs.Descent.Script
import Tabletop.Proofs.Notation.Steps

/-!
# A descent beside a reading

A descent is compared with the reading of the same notation while both go on. What the reading still makes of the tokens
ahead is its outlook; the marks of the descent so far and the marks of the outlook are the trail of the notation. A
descent is clear of tokens where the reading waits for the next one. Otherwise it holds a token, or has pushed it back,
and the outlook says what the reading does with that token.
-/

namespace Tabletop.Notation

set_option autoImplicit false

/-- A result and marks that depend on the tokens ahead. -/
abbrev Outlook := List Token → Except Fault Roll × List Mark

namespace Outlook

def after (length : Nat) : Except Fault Reading → Outlook
  | .ok next, ahead => (next.conclude length ahead, next.trail length ahead)
  | .error fault, _ => (.error fault, [])

def meeting (length : Nat) (reading : Reading) (token : Token) : Outlook := fun ahead =>
  if token.kind = .ending then
    (reading.finish length, [])
  else
    ((after length (reading.step token) ahead).1, reading.further length token ahead)

def taking (value : Whole) (die : Token) (outlook : Outlook) : Outlook := fun ahead =>
  ((outlook ahead).1, .took value die :: (outlook ahead).2)

variable {length : Nat} {reading : Reading} {token : Token}

theorem meeting_eq_after (word : token.kind ≠ .ending) (untaken : reading.taken? token = none) :
    meeting length reading token = after length (reading.step token) := by
  funext ahead
  rw [meeting, if_neg word, Reading.further, untaken]
  cases reading.step token <;> rfl

theorem meeting_eq_taking {value : Whole} (word : token.kind ≠ .ending) (taken : reading.taken? token = some value) :
    meeting length reading token = taking value token (after length (reading.step token)) := by
  funext ahead
  rw [meeting, if_neg word, Reading.further, taken]
  cases reading.step token <;> rfl

theorem meeting_ending {fault : Fault} (ending : token.kind = .ending) (failed : reading.finish length = .error fault) :
    meeting length reading token = after length (.error fault) := by
  funext ahead
  rw [meeting, if_pos ending, failed]
  rfl

end Outlook

/-- The tokens that are read for what they say. -/
def wordsMet (marks : List Mark) : List Token := (met marks).filter (!·.isSpace)

def Feed.left (feed : Feed) : Nat :=
  (feed.cursor.ahead.filter (!·.isSpace)).length +
    if feed.cursor.pushedBack = true ∧ feed.cursor.last.any (·.kind ≠ .ending) = true then 1 else 0

def Token.weight (token : Token) : Nat := if token.kind = .ending then 0 else 1

namespace Descent

section States

variable (cs : List Char)

/-- What the reading of the notation comes to, told from where the feed is. -/
structure Faces (outlook : Outlook) (feed : Feed) : Prop where
  result : read cs = (outlook feed.cursor.ahead).1
  trail : trail cs = feed.marks ++ (outlook feed.cursor.ahead).2

/-- The cursor has come to a place inside the notation. -/
structure Inside (cursor : Cursor) : Prop where
  length : cursor.length = byteCount cs
  ahead : ∀ token ∈ cursor.ahead, token.kind ≠ .ending

/-- The reading waits for a token, and every token before it was handed out and used. -/
structure Clear (reading : Reading) (feed : Feed) : Prop where
  faces : Faces cs (.after (byteCount cs) (.ok reading)) feed
  inside : Inside cs feed.cursor
  fresh : feed.cursor.pushedBack = false
  stutters : Stutters (wordsMet feed.marks) feed.handed

/-- The last token that was met was handed out once or twice. -/
structure Last (times : Nat) (token : Token) (feed : Feed) : Prop where
  last : feed.cursor.last = some token
  solid : token.isSpace = false
  ending : token.kind = .ending → token = Token.ending (byteCount cs) ∧ feed.cursor.ahead = []
  few : times = 1 ∨ times = 2
  stutters : ∃ words handed, wordsMet feed.marks = words ++ [token] ∧
    feed.handed = handed ++ List.replicate times token ∧ Stutters words handed

/-- The token was handed out and not used yet. -/
structure Held (times : Nat) (outlook : Outlook) (token : Token) (feed : Feed) : Prop where
  faces : Faces cs outlook feed
  inside : Inside cs feed.cursor
  fresh : feed.cursor.pushedBack = false
  last : Last cs times token feed

/-- The token was handed out once and is handed out again next. -/
structure Returned (outlook : Outlook) (token : Token) (feed : Feed) : Prop where
  faces : Faces cs outlook feed
  inside : Inside cs feed.cursor
  back : feed.cursor.pushedBack = true
  last : Last cs 1 token feed

/-- The reading of the notation fails as well, and the descent has met what it met. -/
structure Fails (fault : Fault) (feed : Feed) : Prop where
  result : read cs = .error fault
  trail : trail cs = feed.marks
  stutters : Stutters (wordsMet feed.marks) feed.handed

/-- From the feed the part of a descent gets to its end as described, or fails where the reading fails. -/
def Meets {α : Type} (part : Descent α) (feed : Feed) (post : α → Feed → Prop) : Prop :=
  match part feed with
  | .ok value feed => post value feed
  | .error (.fault fault) feed => Fails cs fault feed
  | .error _ _ => False

end States

variable {cs : List Char} {α β : Type} {feed : Feed} {times : Nat} {token : Token} {reading : Reading}

theorem meets_bind {part : Descent α} {next : α → Descent β} {post : β → Feed → Prop}
    (meets : Meets cs part feed fun value feed => Meets cs (next value) feed post) :
    Meets cs (part >>= next) feed post := by
  have run : (part >>= next) feed = EStateM.bind part next feed := rfl
  unfold Meets at meets ⊢
  rw [run, EStateM.bind]
  cases ran : part feed with
  | ok value feed =>
      rw [ran] at meets
      exact meets
  | error stop feed =>
      rw [ran] at meets
      cases stop <;> exact meets

theorem meets_mono {part : Descent α} {post weaker : α → Feed → Prop} (meets : Meets cs part feed post)
    (follows : ∀ value feed, post value feed → weaker value feed) : Meets cs part feed weaker := by
  unfold Meets at meets ⊢
  split at meets
  · exact follows _ _ meets
  · exact meets
  · exact meets

theorem meets_seq {part : Descent α} {next : α → Descent β} {middle : α → Feed → Prop} {post : β → Feed → Prop}
    (meets : Meets cs part feed middle) (behind : ∀ value feed, middle value feed → Meets cs (next value) feed post) :
    Meets cs (part >>= next) feed post :=
  meets_bind (meets_mono meets behind)

theorem stutters_of_last (last : Last cs times token feed) :
    Stutters (wordsMet feed.marks) feed.handed := by
  obtain ⟨words, handed, met, given, stutters⟩ := last.stutters
  rw [met, given]
  rcases last.few with rfl | rfl
  · exact .once token stutters
  · exact .twice token stutters

theorem fails_of_held {fault : Fault} (held : Held cs times (.after (byteCount cs) (.error fault)) token feed) :
    Fails cs fault feed where
  result := held.faces.result
  trail := held.faces.trail.trans (List.append_nil _)
  stutters := stutters_of_last held.last

theorem fails_of_returned {fault : Fault} (returned : Returned cs (.after (byteCount cs) (.error fault)) token feed) :
    Fails cs fault feed where
  result := returned.faces.result
  trail := returned.faces.trail.trans (List.append_nil _)
  stutters := stutters_of_last returned.last

theorem clear_of_held {next : Reading} (held : Held cs times (.after (byteCount cs) (.ok next)) token feed) :
    Clear cs next feed where
  faces := held.faces
  inside := held.inside
  fresh := held.fresh
  stutters := stutters_of_last held.last

theorem meets_ask {value : Except Fault α} {step : α → Except Fault Reading}
    (held : Held cs times (.after (byteCount cs) (value >>= step)) token feed) :
    Meets cs (ask value) feed fun known same =>
      same = feed ∧ value = .ok known ∧ Held cs times (.after (byteCount cs) (step known)) token feed := by
  cases value with
  | ok known => exact ⟨rfl, rfl, held⟩
  | error fault => exact fails_of_held held

theorem meets_rewind {outlook : Outlook} (held : Held cs 1 outlook token feed) :
    Meets cs rewind feed fun _ back => Returned cs outlook token back ∧ back.left = feed.left + token.weight := by
  constructor
  · exact ⟨⟨held.faces.result, held.faces.trail⟩, ⟨held.inside.length, held.inside.ahead⟩, rfl,
      ⟨held.last.last, held.last.solid, held.last.ending, held.last.few, held.last.stutters⟩⟩
  · simp [Feed.left, Cursor.unscan, held.fresh, held.last.last, Token.weight, Option.any]

theorem skip_space (space : feed.scan.1.isSpace = true) : feed.skip = feed.scan.2.skip := by
  rw [Feed.skip, dif_pos space]

theorem skip_solid (solid : feed.scan.1.isSpace = false) : feed.skip = feed.scan := by
  rw [Feed.skip, dif_neg (by simp [solid])]

def past (feed : Feed) (token : Token) (ahead : List Token) : Feed where
  cursor := { feed.cursor with ahead, last := some token }
  marks := feed.marks ++ [.met token]
  handed := feed.handed

theorem words_met_past (marks : List Mark) (token : Token) :
    wordsMet (marks ++ [.met token]) = wordsMet marks ++ if token.isSpace then [] else [token] := by
  rw [wordsMet, met_append, List.filter_append]
  cases solid : token.isSpace <;> simp [wordsMet, solid]

theorem left_of_fresh (fresh : feed.cursor.pushedBack = false) :
    feed.left = (feed.cursor.ahead.filter (!·.isSpace)).length := by
  simp [Feed.left, fresh]

theorem left_past (fresh : feed.cursor.pushedBack = false) (token : Token) (ahead : List Token) :
    (past feed token ahead).left = (ahead.filter (!·.isSpace)).length := by
  simp [Feed.left, past, fresh]

theorem left_hand (feed : Feed) (token : Token) : (feed.hand token).left = feed.left := rfl

variable {ahead : List Token}

theorem scan_cons (fresh : feed.cursor.pushedBack = false) (next : feed.cursor.ahead = token :: ahead) :
    feed.scan = (token, past feed token ahead) := by
  simp [Feed.scan, Cursor.scan, Cursor.fresh, past, fresh, next]

theorem scan_nil (fresh : feed.cursor.pushedBack = false) (next : feed.cursor.ahead = []) :
    feed.scan = (Token.ending feed.cursor.length, past feed (Token.ending feed.cursor.length) []) := by
  simp [Feed.scan, Cursor.scan, Cursor.fresh, past, fresh, next]

theorem clear_past_space (clear : Clear cs reading feed) (next : feed.cursor.ahead = token :: ahead)
    (space : token.isSpace = true) : Clear cs reading (past feed token ahead) := by
  obtain ⟨⟨result, trail⟩, ⟨length, lexed⟩, fresh, stutters⟩ := clear
  simp only [next, Outlook.after, Reading.conclude_space space, Reading.trail_space space] at result trail
  rw [next] at lexed
  refine ⟨⟨result, ?_⟩, ⟨length, (List.forall_mem_cons.mp lexed).2⟩, fresh, ?_⟩
  · rw [trail, past, List.append_assoc]
    rfl
  · rw [past, words_met_past, if_pos space, List.append_nil]
    exact stutters

theorem faces_past_word (faces : Faces cs (.after (byteCount cs) (.ok reading)) feed)
    (next : feed.cursor.ahead = token :: ahead) (solid : token.isSpace = false) (word : token.kind ≠ .ending) :
    Faces cs (.meeting (byteCount cs) reading token) (past feed token ahead) := by
  obtain ⟨result, trail⟩ := faces
  simp only [next, Outlook.after, Reading.conclude_word solid, Reading.trail_word solid] at result trail
  constructor
  · rw [result, past, Outlook.meeting, if_neg word]
    cases reading.step token <;> rfl
  · rw [trail, past, Outlook.meeting, if_neg word, List.append_assoc]
    rfl

theorem faces_past_end (faces : Faces cs (.after (byteCount cs) (.ok reading)) feed) (next : feed.cursor.ahead = []) :
    Faces cs (.meeting (byteCount cs) reading (Token.ending (byteCount cs)))
      (past feed (Token.ending (byteCount cs)) []) := by
  obtain ⟨result, trail⟩ := faces
  rw [next] at result trail
  exact ⟨result, trail.trans (List.append_assoc feed.marks [_] []).symm⟩

theorem held_past {outlook : Outlook} (clear : Clear cs reading feed) (faces : Faces cs outlook (past feed token ahead))
    (solid : token.isSpace = false) (ending : token.kind = .ending → token = Token.ending (byteCount cs) ∧ ahead = [])
    (lexed : ∀ other ∈ ahead, other.kind ≠ .ending) :
    Held cs 1 outlook token ((past feed token ahead).hand token) where
  faces := ⟨faces.result, faces.trail⟩
  inside := ⟨clear.inside.length, lexed⟩
  fresh := clear.fresh
  last :=
    { last := rfl
      solid
      ending
      few := .inl rfl
      stutters := ⟨_, _, (words_met_past _ _).trans (by rw [solid]; rfl), rfl, clear.stutters⟩ }

/-- The next word, or the ending, is met and handed out for the first time. -/
theorem meets_advance (clear : Clear cs reading feed) :
    Meets cs advance feed fun token held =>
      Held cs 1 (.meeting (byteCount cs) reading token) token held ∧ held.left + token.weight = feed.left := by
  change Held _ _ _ feed.skip.1 (feed.skip.2.hand feed.skip.1) ∧ (feed.skip.2.hand feed.skip.1).left + _ = _
  generalize ahead : feed.cursor.ahead = tokens
  induction tokens generalizing feed with
  | nil =>
      have read := scan_nil clear.fresh ahead
      rw [clear.inside.length] at read
      rw [skip_solid (by rw [read]; rfl), read]
      refine ⟨held_past clear (faces_past_end clear.faces ahead) rfl (fun _ => ⟨rfl, rfl⟩) (List.forall_mem_nil _), ?_⟩
      rw [left_of_fresh clear.fresh, ahead, left_hand, left_past clear.fresh]
      rfl
  | cons token tokens ih =>
      have read := scan_cons clear.fresh ahead
      have lexed := clear.inside.ahead
      rw [ahead, List.forall_mem_cons] at lexed
      cases solid : token.isSpace with
      | true =>
          rw [skip_space (by rw [read]; exact solid), read]
          obtain ⟨held, left⟩ := ih (clear_past_space clear ahead solid) rfl
          refine ⟨held, left.trans ?_⟩
          rw [left_of_fresh clear.fresh, ahead, List.filter_cons_of_neg (by simp [solid]), left_past clear.fresh]
      | false =>
          rw [skip_solid (by rw [read]; exact solid), read]
          have faces := faces_past_word clear.faces ahead solid lexed.1
          refine ⟨held_past clear faces solid (absurd · lexed.1) lexed.2, ?_⟩
          rw [left_of_fresh clear.fresh, ahead, List.filter_cons_of_pos (by simp [solid]), left_hand,
            left_past clear.fresh, Token.weight, if_neg lexed.1]
          rfl

theorem meets_advance_again {outlook : Outlook} (returned : Returned cs outlook token feed) :
    Meets cs advance feed fun same held =>
      same = token ∧ Held cs 2 outlook token held ∧ held.left + token.weight = feed.left := by
  change feed.skip.1 = token ∧ Held _ _ _ _ (feed.skip.2.hand feed.skip.1) ∧ (feed.skip.2.hand feed.skip.1).left + _ = _
  obtain ⟨⟨result, trail⟩, inside, back, ⟨last, solid, ending, few, words, handed, met, given, stutters⟩⟩ := returned
  have read : feed.scan = (token, { feed with cursor := { feed.cursor with pushedBack := false } }) := by
    simp [Feed.scan, Cursor.scan, back, last]
  rw [skip_solid (by rw [read]; exact solid), read]
  refine ⟨rfl, ⟨⟨result, trail⟩, ⟨inside.length, inside.ahead⟩, rfl, ⟨last, solid, ending, .inr rfl, ?_⟩⟩, ?_⟩
  · refine ⟨words, handed, met, ?_, stutters⟩
    rw [Feed.hand, given, List.append_assoc]
    rfl
  · simp [Feed.left, Feed.hand, back, last, Token.weight]

theorem weight_of_word (word : token.kind ≠ .ending) : token.weight = 1 := if_neg word

theorem held_after (held : Held cs times (.meeting (byteCount cs) reading token) token feed)
    (word : token.kind ≠ .ending) (untaken : reading.taken? token = none) :
    Held cs times (.after (byteCount cs) (reading.step token)) token feed := by
  rwa [Outlook.meeting_eq_after word untaken] at held

theorem untaken_of_kind (reading : Reading) (other : token.kind ≠ .die) : reading.taken? token = none := by
  unfold Reading.taken?
  split
  · contradiction
  · rfl

theorem kind_ne_ending_of_step {next : Reading} (step : Reading.Step reading token next) : token.kind ≠ .ending := by
  intro ending
  cases step with
  | count read | equality read | threshold read | number read => cases read.kind.symm.trans ending
  | die read | countedDie read | handedDie read | signedDie read => cases read.kind.symm.trans ending
  | limit read => cases read.kind.symm.trans ending
  | @sign _ _ _ _ negative kind => cases negative <;> cases kind.symm.trans ending
  | opening kind | reroll kind | explosion kind | order kind | success kind | failure kind | closing kind | comma kind
  | relation kind | signedOpening kind => cases kind.symm.trans ending

theorem clear_of_step {next : Reading} (held : Held cs times (.meeting (byteCount cs) reading token) token feed)
    (step : Reading.Step reading token next) (other : token.kind ≠ .die) : Clear cs next feed := by
  have holds := held_after held (kind_ne_ending_of_step step) (untaken_of_kind reading other)
  rw [Reading.step_eq_ok.mpr step] at holds
  exact clear_of_held holds

theorem meets_refused {α : Type} {post : α → Feed → Prop}
    (held : Held cs times (.meeting (byteCount cs) reading token) token feed)
    (refused : reading.step token = token.unexpected) (untaken : reading.taken? token = none)
    (ends : token.kind = .ending →
      reading.finish (byteCount cs) = (Token.ending (byteCount cs)).unexpected) :
    Meets cs (ask token.unexpected) feed post := by
  by_cases ending : token.kind = .ending
  · have same := (held.last.ending ending).1
    rw [Outlook.meeting_ending ending (ends ending), ← same] at held
    exact fails_of_held held
  · have behind := held_after held ending untaken
    rw [refused] at behind
    exact fails_of_held behind

theorem meets_expect {kind : Kind} (clear : Clear cs reading feed) (word : kind ≠ .ending)
    (untaken : ∀ token, reading.taken? token = none)
    (refused : ∀ token, token.kind ≠ kind → reading.step token = token.unexpected)
    (ends : reading.finish (byteCount cs) = (Token.ending (byteCount cs)).unexpected) :
    Meets cs (expect kind) feed fun token held => token.kind = kind ∧
      Held cs 1 (.after (byteCount cs) (reading.step token)) token held ∧ held.left + 1 = feed.left := by
  apply meets_seq (meets_advance clear)
  intro token held given
  obtain ⟨holds, left⟩ := given
  split
  · rename_i expected
    have other : token.kind ≠ .ending := expected ▸ word
    rw [weight_of_word other] at left
    exact ⟨expected, held_after holds other (untaken token), left⟩
  · rename_i unexpected
    exact meets_refused holds (refused token unexpected) (untaken token) fun _ => ends

theorem words_met_took (marks : List Mark) (value : Whole) (die : Token) :
    wordsMet (marks ++ [.took value die]) = wordsMet marks := by
  rw [wordsMet, met_append, met_took_cons, met_nil, List.append_nil, wordsMet]

theorem meets_mark {value : Whole} {outlook : Outlook} (held : Held cs times (outlook.taking value token) token feed) :
    Meets cs (mark (.took value token)) feed fun _ marked =>
      Held cs times outlook token marked ∧ marked.left = feed.left := by
  obtain ⟨⟨result, trail⟩, ⟨length, lexed⟩, fresh, ⟨last, solid, ending, few, stutters⟩⟩ := held
  refine ⟨⟨⟨result, ?_⟩, ⟨length, lexed⟩, fresh, ⟨last, solid, ending, few, ?_⟩⟩, rfl⟩
  · rw [trail, List.append_assoc]
    rfl
  · rw [words_met_took]
    exact stutters

end Descent

end Tabletop.Notation
