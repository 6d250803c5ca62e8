import Mathlib
import Tabletop.Proofs.Descent.Suffixes
import Tabletop.Proofs.Notation.Spacing

/-!
# Descending is reading

The groups still open in the reading are those whose members are being read by the calls around a part, and the
multiplier that a member is given in the end is the one with which the reading began it. So every part of a descent does
what the reading does. Every call inside another one finds at least one word less in front of it, and so does every
round of a loop; patience for all words is enough.
-/

namespace Tabletop.Notation

set_option autoImplicit false

namespace Descent

variable {cs : List Char} {feed : Feed} {times : Nat} {token : Token} {groups : List Frame}

/-- Where a descent is behind a roll and its signal, when so many words were left in front of it. -/
def BehindRoll (cs : List Char) (groups : List Frame) (multiplier : Option Whole) (left : Nat) :
    Roll × Signal → Feed → Prop
  | (roll, signal), feed => feed.left ≤ left ∧ Signalled cs groups (patched multiplier roll) signal feed

theorem behind_roll_mono {multiplier : Option Whole} {left more : Nat} (le : left ≤ more) (result : Roll × Signal)
    (feed : Feed) (behind : BehindRoll cs groups multiplier left result feed) :
    BehindRoll cs groups multiplier more result feed :=
  ⟨Nat.le_trans behind.1 le, behind.2⟩

theorem tail_patched (multiplier : Option Whole) (roll : Roll) : (patched multiplier roll).tail = roll.tail := by
  cases multiplier <;> cases roll <;> rfl

theorem with_tail_patched (multiplier : Option Whole) (roll : Roll) (tail : Tail) :
    (patched multiplier roll).withTail tail = patched multiplier (roll.withTail tail) := by
  cases multiplier <;> cases roll <;> rfl

theorem meets_carry_on {multiplier : Option Whole} (roll : Roll) {left : Nat} {pending : Option Pending}
    {last : Option (Whole × Span)} (again : Tail → Option (Whole × Span) → Descent (Roll × Signal))
    (held : Held cs 1 (.meeting (byteCount cs) ⟨groups, .suffix (patched multiplier roll) pending⟩ token) token feed)
    (kept : Kept last pending roll.tail) (all : feed.left + token.weight = left)
    (shared : OfDice token → Reading.suffix groups (patched multiplier roll) pending token = token.unexpected)
    (goesOn : ∀ {tail : Tail} {last : Option (Whole × Span)} {pending : Option Pending} {later : Feed},
      later.left < left → Clear cs ⟨groups, .suffix (patched multiplier (roll.withTail tail)) pending⟩ later →
        Kept last pending tail → Meets cs (again tail last) later (BehindRoll cs groups multiplier left)) :
    Meets cs (carryOn roll again token (!groups.isEmpty) last) feed (BehindRoll cs groups multiplier left) := by
  unfold carryOn
  have same := tail_patched multiplier roll
  rw [← same] at kept ⊢
  rw [← all] at goesOn ⊢
  apply meets_seq (meets_suffix held kept shared)
  intro result later given
  obtain ⟨tail, flow⟩ := result
  cases flow with
  | goOn last =>
      obtain ⟨less, pending, clear, kept⟩ := given
      rw [with_tail_patched] at clear
      exact goesOn less clear kept
  | leave signal =>
      obtain ⟨less, signalled⟩ := given
      rw [with_tail_patched] at signalled
      exact ⟨less, signalled⟩

theorem patched_single (multiplier : Option Whole) (single : Single) :
    patched multiplier (.single single) =
      .single { single with multiplier := multiplier.getD single.multiplier } := by
  cases multiplier <;> rfl

theorem meets_dice (multiplier : Option Whole) (patience : Nat) {single : Single} {pending : Option Pending}
    {last : Option (Whole × Span)}
    (clear : Clear cs ⟨groups, .suffix (patched multiplier (.single single)) pending⟩ feed)
    (kept : Kept last pending single.tail) (enough : feed.left < patience) :
    Meets cs (dice patience (!groups.isEmpty) single last) feed (BehindRoll cs groups multiplier feed.left) := by
  induction patience generalizing single pending last feed with
  | zero => exact absurd enough (Nat.not_lt_zero _)
  | succ patience ih =>
      -- From a test on, the roll goes on without a modifier to take.
      have again (slot : Slot) (next : Test → Single) {front : Feed} (less : front.left < feed.left)
          (fills : ∀ test,
            slot.fill test (patched multiplier (.single single)) = patched multiplier (.single (next test)))
          (clear : Clear cs ⟨groups, .test (patched multiplier (.single single)) slot⟩ front) :
          Meets cs (do let test ← comparison; dice patience (!groups.isEmpty) (next test) none) front
            (BehindRoll cs groups multiplier feed.left) := by
        apply meets_seq (meets_comparison clear)
        intro test later given
        obtain ⟨clear, left⟩ := given
        rw [fills] at clear
        exact meets_mono (ih clear .none (by omega)) (behind_roll_mono (by omega))
      apply meets_seq (meets_advance clear)
      intro token held given
      obtain ⟨holds, left⟩ := given
      have only (word : token.kind ≠ .ending) : held.left < feed.left := by
        rw [weight_of_word word] at left
        omega
      split
      case h_1 once reroll =>
        rw [patched_single] at holds again
        have clear := clear_of_step holds (.reroll reroll) (by simp [reroll])
        exact again (.reroll once) _ (only (by simp [reroll])) (fun _ => by rw [patched_single]; rfl) clear
      case h_2 kind explode =>
        rw [patched_single] at holds again
        have clear := clear_of_step holds (.explosion explode) (by simp [explode])
        exact again (.exploding kind) _ (only (by simp [explode])) (fun _ => by rw [patched_single]; rfl) clear
      case h_3 order sort =>
        rw [patched_single] at holds
        have clear := clear_of_step holds (.order sort) (by simp [sort])
        have sorted := patched_single multiplier { single with order }
        rw [← sorted] at clear
        have less := only (by simp [sort])
        exact meets_mono (ih clear .none (by omega)) (behind_roll_mono (by omega))
      case h_4 notReroll notExplode notSort =>
        have own : ¬ OfDice token := by
          intro own
          rcases own with ⟨once, own⟩ | ⟨kind, own⟩ | ⟨order, own⟩
          · exact notReroll once own
          · exact notExplode kind own
          · exact notSort order own
        apply meets_carry_on (.single single) (fun tail => dice patience (!groups.isEmpty) { single with tail })
          holds kept left (absurd · own)
        intro tail last pending later less clear kept
        exact meets_mono (ih clear kept (by omega)) (behind_roll_mono (by omega))

theorem patched_group (multiplier : Option Whole) (first : Roll) (others : List Roll) (tail : Tail) (combined : Bool) :
    patched multiplier (.group first others tail combined false) =
      .group first others tail combined (multiplier.any Whole.isNegative) := by
  cases multiplier <;> rfl

theorem meets_behind (multiplier : Option Whole) (first : Roll) (others : List Roll) (combined : Bool) (patience : Nat)
    {tail : Tail} {pending : Option Pending} {last : Option (Whole × Span)}
    (clear : Clear cs ⟨groups, .suffix (patched multiplier (.group first others tail combined false)) pending⟩ feed)
    (kept : Kept last pending tail) (enough : feed.left < patience) :
    Meets cs (behind first others combined patience (!groups.isEmpty) tail last) feed
      (BehindRoll cs groups multiplier feed.left) := by
  induction patience generalizing tail pending last feed with
  | zero => exact absurd enough (Nat.not_lt_zero _)
  | succ patience ih =>
      apply meets_seq (meets_advance clear)
      intro token held given
      obtain ⟨holds, left⟩ := given
      have shared (own : OfDice token) : Reading.suffix groups
          (patched multiplier (.group first others tail combined false)) pending token = token.unexpected := by
        rw [patched_group]
        rcases own with ⟨once, own⟩ | ⟨kind, own⟩ | ⟨order, own⟩ <;> simp [Reading.suffix, own]
      apply meets_carry_on (.group first others tail combined false)
        (behind first others combined patience (!groups.isEmpty)) holds kept left shared
      intro tail last pending later less clear kept
      exact meets_mono (ih clear kept (by omega)) (behind_roll_mono (by omega))

def starting (groups : List Frame) (multiplier : Option Whole) (token : Token) : Except Fault Reading :=
  match multiplier with
  | none => Reading.step ⟨groups, .roll⟩ token
  | some value => Reading.begin groups value token

/-- With so much patience, the part reads every roll that starts with a token held, and as many words as it may. -/
def ReadsRoll (cs : List Char) (patience : Nat) (grouped : Bool) (part : Token → Descent (Roll × Signal)) : Prop :=
  ∀ {groups : List Frame} {multiplier : Option Whole} {times : Nat} {token : Token} {feed : Feed},
    grouped = !groups.isEmpty → (multiplier ≠ none → Starts token) → feed.left + token.weight < patience →
      Held cs times (.after (byteCount cs) (starting groups multiplier token)) token feed →
        Meets cs (part token) feed (BehindRoll cs groups multiplier feed.left)

def Due (cs : List Char) (groups : List Frame) : Option Whole → Feed → Prop
  | none, feed => Clear cs ⟨groups, .roll⟩ feed
  | some value, feed => ∃ token, Starts token ∧
      Returned cs (.after (byteCount cs) (Reading.begin groups value token)) token feed

section Members

variable {part : Token → Descent (Roll × Signal)} {patience : Nat} {frame : Frame} {outer : List Frame}

theorem meets_member_from (reads : ReadsRoll cs patience true part) {multiplier : Option Whole}
    (starts : multiplier ≠ none → Starts token) (enough : feed.left + token.weight < patience)
    (held : Held cs times (.after (byteCount cs) (starting (frame :: outer) multiplier token)) token feed) :
    Meets cs (memberFrom part multiplier token) feed fun result later =>
      later.left ≤ feed.left ∧ Signalled cs (frame :: outer) result.1 result.2 later := by
  apply meets_seq (reads rfl starts enough held)
  intro result later behind
  exact behind

theorem meets_member (reads : ReadsRoll cs patience true part) {multiplier : Option Whole}
    (due : Due cs (frame :: outer) multiplier feed) (enough : feed.left < patience) :
    Meets cs (member part frame.opening multiplier) feed fun result later =>
      later.left < feed.left ∧ Signalled cs (frame :: outer) result.1 result.2 later := by
  cases multiplier with
  | none =>
      apply meets_seq (meets_advance due)
      intro token held given
      obtain ⟨holds, left⟩ := given
      split
      · rename_i ending
        rw [Outlook.meeting_ending ending rfl] at holds
        exact fails_of_held holds
      · rename_i word
        have holds := held_after holds word rfl
        rw [weight_of_word word] at left
        apply meets_mono (meets_member_from reads (absurd rfl) (by rw [weight_of_word word]; omega) holds)
        intro result later given
        exact ⟨by omega, given.2⟩
  | some value =>
      obtain ⟨token, starts, returned⟩ := due
      have word := word_of_starts starts
      apply meets_seq (meets_advance_again returned)
      intro same held given
      obtain ⟨rfl, holds, left⟩ := given
      rw [weight_of_word word] at left
      rw [if_neg word]
      apply meets_mono (meets_member_from reads (fun _ => starts) (by rw [weight_of_word word]; omega) holds)
      intro result later given
      exact ⟨by omega, given.2⟩

theorem meets_link {roll : Roll} {signal : Signal} (signalled : Signalled cs (frame :: outer) roll signal feed) :
    Meets cs (link frame.opening frame.joint signal) feed fun found later => later.left ≤ feed.left ∧
      match found with
      | none => Clear cs ⟨outer, .suffix (frame.close roll) none⟩ later
      | some (joint, multiplier) => Due cs (frame.push roll joint :: outer) multiplier later := by
  obtain ⟨opening, negative, others, joint⟩ := frame
  cases signal with
  | handing value sign =>
      obtain ⟨token, starts, -, returned⟩ := signalled
      -- In a list the reading has refused the sign already.
      rcases joint with _ | _ | _
      · exact ⟨Nat.le_refl _, token, starts, returned⟩
      · exact fails_of_returned returned
      · exact ⟨Nat.le_refl _, token, starts, returned⟩
  | ended =>
      obtain ⟨token, pending, ends, returned⟩ := signalled
      apply meets_seq (meets_advance_again returned)
      intro same held given
      obtain ⟨rfl, holds, left⟩ := given
      split
      case h_1 comma =>
        have holds := held_after holds (by simp [comma]) (untaken_of_kind _ (by simp [comma]))
        simp only [Reading.step, Reading.suffix, comma] at holds
        rcases joint with _ | _ | _
        · exact ⟨by omega, clear_of_held holds⟩
        · exact ⟨by omega, clear_of_held holds⟩
        · exact fails_of_held holds
      case h_2 closing =>
        exact ⟨by omega, clear_of_step holds (.closing closing) (by simp [closing])⟩
      case h_3 ending =>
        rw [Outlook.meeting_ending ending rfl] at holds
        exact fails_of_held holds
      case h_4 notComma notClosing notEnding =>
        rcases ends with ending | ⟨-, closing | comma⟩
        · exact absurd ending notEnding
        · exact absurd closing notClosing
        · exact absurd comma notComma

theorem close_eq_group {first last : Roll} {others : List Roll} (members : first :: others = frame.members ++ [last]) :
    frame.close last = .group first others .plain (decide (frame.joint ≠ some .comma)) frame.negative := by
  unfold Frame.close
  cases earlier : frame.members with
  | nil =>
      rw [earlier] at members
      cases members
      rfl
  | cons head tail =>
      rw [earlier] at members
      cases members
      rfl

theorem meets_members (reads : ReadsRoll cs patience true part) (rounds : Nat) {first last : Roll} {others : List Roll}
    {signal : Signal} (signalled : Signalled cs (frame :: outer) last signal feed)
    (read : first :: others = frame.members ++ [last]) (enoughRounds : feed.left < rounds)
    (enough : feed.left < patience) :
    Meets cs (members part frame.opening rounds frame.joint others signal) feed fun found later =>
      later.left ≤ feed.left ∧
      Clear cs ⟨outer, .suffix (.group first found.1 .plain (decide (found.2 ≠ some .comma)) frame.negative) none⟩
        later := by
  -- Every round reads at least one word: the comma, or the start of the member that was handed its multiplier.
  induction rounds generalizing frame last others signal feed with
  | zero => exact absurd enoughRounds (Nat.not_lt_zero _)
  | succ rounds ih =>
      apply meets_seq (meets_link signalled)
      intro found linked given
      obtain ⟨left, given⟩ := given
      cases found with
      | none =>
          rw [close_eq_group read] at given
          exact ⟨left, given⟩
      | some next =>
          obtain ⟨joint, multiplier⟩ := next
          apply meets_seq (meets_member reads given (by omega))
          intro result later behind
          obtain ⟨less, signalled⟩ := behind
          have one_more : first :: (others ++ [result.1]) = (frame.push last joint).members ++ [result.1] := by
            rw [← List.cons_append, read]
            rfl
          apply meets_mono (ih signalled one_more (by omega) (by omega))
          intro found last given
          exact ⟨by omega, given.2⟩

end Members

theorem meets_group {part : Token → Descent (Roll × Signal)} {patience : Nat} {opening : Span}
    {multiplier : Option Whole} (reads : ReadsRoll cs patience true part)
    (clear : Clear cs ⟨⟨opening, multiplier.any Whole.isNegative, [], none⟩ :: groups, .roll⟩ feed)
    (enough : feed.left < patience) :
    Meets cs (group part patience opening (!groups.isEmpty)) feed (BehindRoll cs groups multiplier feed.left) := by
  have due : Due cs (⟨opening, multiplier.any Whole.isNegative, [], none⟩ :: groups) none feed := clear
  apply meets_seq (meets_member reads due enough)
  intro member later given
  obtain ⟨first, signal⟩ := member
  obtain ⟨less, signalled⟩ := given
  apply meets_seq (meets_members reads patience signalled rfl (by omega) (by omega))
  intro found closed given
  obtain ⟨others, joint⟩ := found
  obtain ⟨left, clear⟩ := given
  rw [← patched_group] at clear
  have behind := meets_behind multiplier first others _ patience clear .none (by omega)
  exact meets_mono behind (behind_roll_mono (by omega))

def Named (cs : List Char) (groups : List Frame) (multiplier : Option Whole) : Whole × Token → Feed → Prop
  | (count, token), feed => ∃ times,
      Held cs times
        (.after (byteCount cs) (do
          let die ← token.die
          .ok ⟨groups, .suffix (patched multiplier (.single (.plain count die))) none⟩))
        token feed

theorem meets_counted {multiplier : Option Whole} (kind : token.kind = .number ∨ token.kind = .die)
    (starts : multiplier ≠ none → Starts token)
    (held : Held cs times (.after (byteCount cs) (starting groups multiplier token)) token feed) :
    Meets cs (counted token) feed fun named later =>
      later.left ≤ feed.left ∧ Named cs groups multiplier named later := by
  rcases kind with number | die
  · have own : multiplier = none := by
      by_contra given
      rcases starts given with die | opening <;> simp_all
    subst own
    simp only [starting, Reading.step, number] at held
    unfold counted
    rw [if_pos number]
    apply meets_seq (meets_ask held)
    intro count same given
    obtain ⟨rfl, -, holds⟩ := given
    have refused (token : Token) (other : token.kind ≠ .die) :
        Reading.step ⟨groups, .die count⟩ token = token.unexpected := by
      unfold Reading.step
      split <;> simp_all
    apply meets_seq (meets_expect (clear_of_held holds) (by decide) (fun _ => rfl) refused (by cases groups <;> rfl))
    intro token named given
    obtain ⟨die, holds, left⟩ := given
    simp only [Reading.step, Reading.begin, die] at holds
    exact ⟨by omega, _, holds⟩
  · unfold counted
    rw [if_neg (by simp [die])]
    refine ⟨Nat.le_refl _, times, ?_⟩
    cases multiplier <;> simp only [starting, Reading.step, Reading.begin, die] at held <;> exact held

theorem meets_single {multiplier : Option Whole} {patience : Nat} (kind : token.kind = .number ∨ token.kind = .die)
    (starts : multiplier ≠ none → Starts token) (enough : feed.left < patience)
    (held : Held cs times (.after (byteCount cs) (starting groups multiplier token)) token feed) :
    Meets cs (single patience token (!groups.isEmpty)) feed (BehindRoll cs groups multiplier feed.left) := by
  apply meets_seq (meets_counted kind starts held)
  intro named later given
  obtain ⟨count, token⟩ := named
  obtain ⟨left, times, holds⟩ := given
  apply meets_seq (meets_ask holds)
  intro die same given
  obtain ⟨rfl, -, holds⟩ := given
  exact meets_mono (meets_dice multiplier patience (clear_of_held holds) .none (by omega)) (behind_roll_mono left)

/-- Every roll is read, however deep its groups are nested: each is one word further in. -/
theorem meets_roll (patience : Nat) (grouped : Bool) : ReadsRoll cs patience grouped (roll patience · grouped) := by
  induction patience generalizing grouped with
  | zero => exact fun _ _ enough => absurd enough (Nat.not_lt_zero _)
  | succ patience ih =>
      intro groups multiplier times token feed inGroup starts enough held
      subst inGroup
      unfold roll
      beta_reduce
      split
      case h_1 number =>
        rw [weight_of_word (by simp [number])] at enough
        exact meets_single (.inl number) starts (by omega) held
      case h_2 die =>
        rw [weight_of_word (by simp [die])] at enough
        exact meets_single (.inr die) starts (by omega) held
      case h_3 opening =>
        rw [weight_of_word (by simp [opening])] at enough
        have opened : starting groups multiplier token =
            .ok ⟨⟨token.span, multiplier.any Whole.isNegative, [], none⟩ :: groups, .roll⟩ := by
          cases multiplier <;> simp [starting, Reading.step, Reading.begin, opening, Whole.isNegative, Whole.one]
        rw [opened] at held
        -- Behind the brace there is a word less, and the calls further in have as much patience less.
        exact meets_group (ih true) (clear_of_held held) (by omega)
      case h_4 notNumber notDie notOpening =>
        have own : multiplier = none := by
          by_contra given
          rcases starts given with die | opening
          · exact notDie die
          · exact notOpening opening
        have refused : starting groups none token = token.unexpected := by
          simp only [starting, Reading.step, Reading.begin]
        subst own
        rw [refused] at held
        exact fails_of_held held

theorem clear_start (cs : List Char) : Clear cs .start (Feed.start cs) where
  faces := ⟨rfl, rfl⟩
  inside := ⟨rfl, fun _ => kind_ne_ending_of_mem⟩
  fresh := rfl
  stutters := .nil

/-- The reading of the notation succeeds as well, and the descent has met what it met. -/
structure Succeeds (cs : List Char) (roll : Roll) (feed : Feed) : Prop where
  result : read cs = .ok roll
  trail : trail cs = feed.marks
  stutters : Stutters (wordsMet feed.marks) feed.handed

theorem succeeds_of_ended {roll : Roll} {signal : Signal} (signalled : Signalled cs [] roll signal feed) :
    Succeeds cs roll feed := by
  cases signal with
  | handing value sign =>
      obtain ⟨token, -, grouped, -⟩ := signalled
      exact absurd rfl grouped
  | ended =>
      obtain ⟨token, pending, ends, ⟨⟨result, trail⟩, -, -, last⟩⟩ := signalled
      rcases ends with ending | ⟨grouped, -⟩
      · rw [Outlook.meeting, if_pos ending] at result trail
        exact ⟨result, trail.trans (List.append_nil _), stutters_of_last last⟩
      · exact absurd rfl grouped

theorem held_first (held : Held cs times (.meeting (byteCount cs) .start token) token feed) :
    Held cs times (.after (byteCount cs) (starting [] none token)) token feed := by
  by_cases ending : token.kind = .ending
  · have same := (held.last.ending ending).1
    rw [Outlook.meeting_ending ending rfl] at held
    rw [same] at held ⊢
    exact held
  · exact held_after held ending rfl

theorem meets_whole {patience : Nat} (enough : (words cs).length < patience) :
    Meets cs (whole patience) (Feed.start cs) (Succeeds cs) := by
  have all : (Feed.start cs).left = (words cs).length := left_of_fresh rfl
  apply meets_seq (meets_advance (clear_start cs))
  intro token held given
  obtain ⟨holds, left⟩ := given
  have none : (none : Option Whole) ≠ none → Starts token := absurd rfl
  apply meets_seq (meets_roll patience false rfl none (by omega) (held_first holds))
  intro result later behind
  exact succeeds_of_ended behind.2

end Descent

def endedWith (feed : Feed) : Except Fault Roll → EStateM.Result Stop Feed Roll
  | .ok roll => .ok roll feed
  | .error fault => .error (.fault fault) feed

/-- With patience for every word the descent ends as the reading does, and was handed every word once or twice. -/
theorem descend_eq_read {cs : List Char} {patience : Nat} (enough : (words cs).length < patience) :
    ∃ feed, descend patience cs = endedWith feed (read cs) ∧ feed.marks = trail cs ∧
      Stutters (wordsMet (trail cs)) feed.handed := by
  have meets := Descent.meets_whole enough
  have run : Descent.whole patience (Feed.start cs) = descend patience cs := rfl
  rw [Descent.Meets, run] at meets
  cases ended : descend patience cs with
  | ok roll feed =>
      rw [ended] at meets
      obtain ⟨result, trail, stutters⟩ := meets
      rw [result, trail]
      exact ⟨feed, rfl, rfl, stutters⟩
  | error stop feed =>
      rw [ended] at meets
      cases stop with
      | fault fault =>
          obtain ⟨result, trail, stutters⟩ := meets
          rw [result, trail]
          exact ⟨feed, rfl, rfl, stutters⟩
      | overflow => exact absurd meets id
      | endless => exact absurd meets id

/-- The descent ends with what the notation denotes, whatever patience it has beyond the number of tokens. What it met
is the start of the script, without repetition, and all of it where there is a roll. The words it met are handed out in
this order, each of them once, or twice in a row where it was pushed back, and white space never is. -/
theorem descend_reads_once {text : String} {patience : Nat} (enough : (tokens text.toList).length < patience) :
    ∃ feed, descend patience text.toList = endedWith feed (parse text) ∧ feed.marks = trail text.toList ∧
      met feed.marks <+: script text.toList ∧ (script text.toList).Nodup ∧
      (∀ roll, parse text = .ok roll → met feed.marks = script text.toList) ∧
      Stutters (wordsMet feed.marks) feed.handed ∧
      (∀ token ∈ feed.handed, token ∈ met feed.marks ∧ token.isSpace = false) ∧
      (∀ token, feed.handed.count token ≤ 2) ∧
      feed.handed.length ≤ 2 * ((tokens text.toList).length + 1) := by
  have fewer : (words text.toList).length ≤ (tokens text.toList).length := List.length_filter_le _ _
  obtain ⟨feed, ended, marks, stutters⟩ := descend_eq_read (Nat.lt_of_le_of_lt fewer enough)
  have start := met_trail_prefix text.toList
  have distinct := nodup_script text.toList
  have among : (wordsMet (trail text.toList)).Sublist (script text.toList) := List.filter_sublist.trans start.sublist
  refine ⟨feed, ended, marks, ?_⟩
  rw [marks]
  refine ⟨start, distinct, fun _ => met_trail_of_read, stutters, ?_, ?_, ?_⟩
  · intro token found
    have word := mem_of_stutters stutters found
    simpa [wordsMet] using word
  · intro token
    have once := List.nodup_iff_count_le_one.mp (distinct.sublist among) token
    have twice := count_le_of_stutters stutters token
    omega
  · have whole : (script text.toList).length = (tokens text.toList).length + 1 := List.length_append
    have shorter := among.length_le
    have twice := length_le_of_stutters stutters
    omega

/-- The die is read behind the number, pushed back, and read again as the start of the next member. -/
theorem descend_reads_once_past_handing :
    let text := "{d6+2d4}"
    (tokens text.toList).length < 7 ∧ ∃ roll feed, descend 7 text.toList = .ok roll feed ∧
      met feed.marks = script text.toList ∧ Stutters (wordsMet feed.marks) feed.handed ∧ feed.handed.length ≤ 14 := by
  have count : (tokens "{d6+2d4}".toList).length = 6 := by cbv
  have enough : (tokens "{d6+2d4}".toList).length < 7 := by rw [count]; decide
  have read : parse "{d6+2d4}" =
      .ok (.group (.single (.plain .one (.standard ⟨6, by decide, by decide⟩)))
        [.single (.plain ⟨2, by decide, by decide⟩ (.standard ⟨4, by decide, by decide⟩))] .plain true false) := by cbv
  obtain ⟨feed, ended, -, -, -, all, stutters, -, -, few⟩ := descend_reads_once enough
  rw [read] at ended
  rw [count] at few
  exact ⟨enough, _, feed, ended, all _ read, stutters, few⟩

end Tabletop.Notation
