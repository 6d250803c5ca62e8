import Tabletop.Proofs.Descent.Rolls
import Tabletop.Proofs.Descent.Watch
import Tabletop.Proofs.Notation.Tiling

/-!
# What a descent relies on

A descent takes a value off a modifier without a check, multiplies a sign with a number without a check, and reads the
text of a die or a limit from behind its letters without looking at them. At every point it may: what it keeps for the
next token was added to the modifier that it takes it off, and the letters of these tokens take one byte each. A watched
descent ends as the descent does and notes nothing that is not safe, and whether it notes it or not, every token that is
handed out can be read in this way.
-/

namespace Tabletop.Notation

set_option autoImplicit false

/-- The rest of the text from the byte on: the text reaches that far, and no character goes over it. -/
def Sliced (byte : Nat) (text rest : List Char) : Prop := ∃ before, before ++ rest = text ∧ byteCount before = byte

/-- The text can be read from behind the letters of a die or a limit. -/
structure Token.Sliceable (token : Token) : Prop where
  die : token.kind = .die → Sliced 1 token.text (token.text.drop 1)
  limit : ∀ kind, token.kind = .limit kind → Sliced 2 token.text (token.text.drop 2)

structure Feed.Sliceable (feed : Feed) : Prop where
  ahead : ∀ token ∈ feed.cursor.ahead, token.Sliceable
  last : ∀ token ∈ feed.cursor.last, token.Sliceable

theorem sliced_die {text : List Char} (matched : Kind.Matches .die text) : Sliced 1 text (text.drop 1) := by
  cases matched with
  | @die letter sides named digits =>
      refine ⟨[letter], rfl, ?_⟩
      rcases named with rfl | rfl <;> rfl
  | @letteredDie letter c named alpha =>
      refine ⟨[letter], rfl, ?_⟩
      rcases named with rfl | rfl <;> rfl

theorem sliced_limit {kind : Limit.Kind} {text : List Char} (matched : Kind.Matches (.limit kind) text) :
    Sliced 2 text (text.drop 2) := by
  cases matched with
  | @limit _ amount digits =>
      refine ⟨kind.text, ?_, ?_⟩
      · cases kind <;> rfl
      · cases kind <;> rfl

theorem sliceable_of_mem {cs : List Char} {token : Token} (found : token ∈ tokens cs) : token.Sliceable := by
  obtain ⟨front, c, rest, split, kind, text, span⟩ := stands_of_mem found
  have matched : token.kind = .illegal ∨ token.kind.Matches token.text := by
    rw [kind, text]
    rcases classify_matches c rest with matched | illegal
    · exact .inr matched
    · exact .inl (congrArg Prod.fst illegal)
  rcases matched with illegal | matched
  · constructor
    · exact fun die => by cases illegal.symm.trans die
    · exact fun _ limit => by cases illegal.symm.trans limit
  · exact ⟨fun die => sliced_die (die ▸ matched), fun _ limit => sliced_limit (limit ▸ matched)⟩

theorem sliceable_ending (length : Nat) : (Token.ending length).Sliceable :=
  ⟨fun die => (nomatch die), fun _ limit => (nomatch limit)⟩

namespace Descent

/-- What is relied on at the point holds. -/
def Point.Safe : Point → Prop
  | waiting tail last pending =>
    Kept last pending tail ∧ ∀ kept ∈ pending, tail.modifier.sub? kept.value = some kept.before
  | givenBack modifier pending => ∃ kept, pending = some kept ∧ modifier = kept.before
  | slicing byte token => Sliced byte token.text (token.text.drop byte)

variable {α β : Type}

/-- Where the part comes to a value, the tokens stay as they should be and the value is as described. -/
def Keeps (part : Descent α) (post : α → Prop) : Prop :=
  ∀ feed, feed.Sliceable → ∀ value later, part feed = .ok value later → later.Sliceable ∧ post value

section Keeps

variable {part : Descent α} {next : α → Descent β} {middle : α → Prop} {post : β → Prop}

theorem keeps_bind (first : Keeps part middle) (behind : ∀ value, middle value → Keeps (next value) post) :
    Keeps (part >>= next) post := by
  intro feed sliceable value later done
  have run : (part >>= next) feed = EStateM.bind part next feed := rfl
  rw [run, EStateM.bind] at done
  cases ran : part feed with
  | ok found between =>
      rw [ran] at done
      obtain ⟨kept, given⟩ := first feed sliceable found between ran
      exact behind found given between kept value later done
  | error stop between =>
      rw [ran] at done
      cases done

theorem keeps_pure {value : β} (given : post value) : Keeps (pure value) post := by
  intro feed sliceable found later done
  cases done
  exact ⟨sliceable, given⟩

theorem keeps_throw (stop : Stop) : Keeps (throw stop) post := by
  intro feed sliceable found later done
  cases done

theorem keeps_ask (value : Except Fault α) : Keeps (ask value) fun known => value = .ok known := by
  cases value with
  | ok known => exact keeps_pure rfl
  | error fault => exact keeps_throw _

theorem keeps_unchecked (value : Option Whole) : Keeps (unchecked value) fun known => value = some known := by
  cases value with
  | some known => exact keeps_pure rfl
  | none => exact keeps_throw _

end Keeps

theorem scan_sliceable {feed : Feed} (sliceable : feed.Sliceable) :
    feed.scan.1.Sliceable ∧ feed.scan.2.Sliceable := by
  obtain ⟨ahead, last⟩ := sliceable
  unfold Feed.scan Cursor.scan
  split
  · rename_i token _ found
    exact ⟨last token found, ahead, last⟩
  · unfold Cursor.fresh
    split
    · rename_i finished
      have ending := sliceable_ending feed.cursor.length
      refine ⟨ending, ahead, fun token found => ?_⟩
      cases found
      exact ending
    · rename_i token others next
      rw [next, List.forall_mem_cons] at ahead
      refine ⟨ahead.1, ahead.2, fun other found => ?_⟩
      cases found
      exact ahead.1

theorem skip_sliceable {feed : Feed} (sliceable : feed.Sliceable) :
    feed.skip.1.Sliceable ∧ feed.skip.2.Sliceable := by
  fun_induction Feed.skip feed with
  | case1 feed space ih => exact ih (scan_sliceable sliceable).2
  | case2 feed solid => exact scan_sliceable sliceable

theorem keeps_advance : Keeps advance Token.Sliceable := by
  intro feed sliceable token later done
  obtain ⟨found, kept⟩ := skip_sliceable sliceable
  cases done
  exact ⟨⟨kept.ahead, kept.last⟩, found⟩

theorem keeps_rewind : Keeps rewind fun _ => True := by
  intro feed sliceable value later done
  cases done
  exact ⟨⟨sliceable.ahead, sliceable.last⟩, trivial⟩

theorem keeps_mark (taken : Mark) : Keeps (mark taken) fun _ => True := by
  intro feed sliceable value later done
  cases done
  exact ⟨⟨sliceable.ahead, sliceable.last⟩, trivial⟩

variable {token : Token} {grouped : Bool}

theorem keeps_unexpected {post : α → Prop} (token : Token) : Keeps (ask token.unexpected) post := keeps_throw _

theorem keeps_expect (kind : Kind) : Keeps (expect kind) fun token => token.kind = kind ∧ token.Sliceable := by
  apply keeps_bind keeps_advance
  intro token sliceable
  split
  · exact keeps_pure ⟨‹_›, sliceable⟩
  · exact keeps_unexpected token

theorem keeps_threshold (relation : Relation) : Keeps (threshold relation) fun _ => True := by
  apply keeps_bind (keeps_expect .number)
  intro value _
  apply keeps_bind (keeps_ask _)
  exact fun _ _ => keeps_pure trivial

theorem keeps_comparison : Keeps comparison fun _ => True := by
  apply keeps_bind keeps_advance
  intro token _
  unfold testFrom
  split
  · apply keeps_bind (keeps_ask _)
    exact fun _ _ => keeps_pure trivial
  · exact keeps_threshold _
  · exact keeps_unexpected token

theorem keeps_give_back {value : α} {post : α → Prop} (given : post value) :
    Keeps (giveBack grouped token value) post := by
  unfold giveBack
  split
  · apply keeps_bind keeps_rewind
    exact fun _ _ => keeps_pure given
  · exact keeps_unexpected token

/-- What a suffix leaves: the value it keeps was added to the modifier from before it, and a die gives back the one that
was kept until then. -/
def Leaves (tail : Tail) (token : Token) (pending : Option Pending) : Tail × Flow → Prop
  | (next, .goOn last) => Kept last (last.map fun kept => ⟨kept.1, token.span, tail.modifier⟩) next
  | (next, .leave _) => token.kind = .die → ∃ kept, pending = some kept ∧ next.modifier = kept.before

variable {tail : Tail} {last : Option (Whole × Span)} {pending : Option Pending}

theorem keeps_after_sign : Keeps (afterSign token grouped) fun _ => True := by
  apply keeps_bind keeps_advance
  intro next _
  split
  · apply keeps_bind (keeps_ask _)
    intro size _
    apply keeps_bind (keeps_unchecked _)
    exact fun _ _ => keeps_pure trivial
  · exact keeps_give_back trivial
  · exact keeps_give_back trivial
  · exact keeps_unexpected next

theorem keeps_add_signed (other : token.kind ≠ .die) :
    Keeps (addSigned tail token grouped) (Leaves tail token pending) := by
  apply keeps_bind keeps_after_sign
  intro found _
  split
  · rename_i value number
    apply keeps_bind (keeps_ask _)
    intro modifier added
    rw [Token.or_unexpected_eq_ok, Whole.add?, Whole.ofInt?_eq_some] at added
    exact keeps_pure (.some added.symm)
  · exact keeps_pure fun die => absurd die other

theorem keeps_take_modifier {value before : Whole} {sign : Span}
    (sum : before.val + value.val = tail.modifier.val) :
    Keeps (takeModifier tail token value sign) (Leaves tail token (some ⟨value, sign, before⟩)) := by
  apply keeps_bind (keeps_mark _)
  intro _ _
  apply keeps_bind keeps_rewind
  intro _ _
  rw [sub_of_sum sum]
  apply keeps_bind (keeps_unchecked _)
  intro modifier same
  cases same
  exact keeps_pure fun _ => ⟨_, rfl, rfl⟩

theorem keeps_suffix (kept : Kept last pending tail) :
    Keeps (suffix tail token grouped last) (Leaves tail token pending) := by
  unfold suffix
  split
  case h_1 kind => exact keeps_add_signed (by simp [kind])
  case h_2 kind => exact keeps_add_signed (by simp [kind])
  case h_3 kind _ =>
    apply keeps_bind (keeps_ask _)
    exact fun _ _ => keeps_pure .none
  case h_4 =>
    apply keeps_bind keeps_rewind
    intro _ _
    apply keeps_bind keeps_comparison
    exact fun _ _ => keeps_pure .none
  case h_5 =>
    apply keeps_bind keeps_comparison
    exact fun _ _ => keeps_pure .none
  case h_6 kind =>
    apply keeps_bind keeps_rewind
    exact fun _ _ => keeps_pure fun die => by cases kind.symm.trans die
  case h_7 kind => exact keeps_give_back fun die => by cases kind.symm.trans die
  case h_8 kind => exact keeps_give_back fun die => by cases kind.symm.trans die
  case h_9 =>
    split
    · cases kept with
      | some sum => exact keeps_take_modifier sum
    · exact keeps_unexpected token
  case h_10 => exact keeps_unexpected token

/-- The watched part ends as the part does, and notes nothing that is not safe. -/
def Traces (part : Descent α) (watched : Watched α) (post : α → Prop) : Prop :=
  ∀ feed points, feed.Sliceable → (∀ point ∈ points, point.Safe) → ∃ more, (∀ point ∈ more, point.Safe) ∧
    match part feed with
    | .ok value later => watched (feed, points) = .ok value (later, more) ∧ later.Sliceable ∧ post value
    | .error stop later => watched (feed, points) = .error stop (later, more)

section Traces

variable {part : Descent α} {watched : Watched α} {next : α → Descent β} {next' : α → Watched β} {middle : α → Prop}
  {post : α → Prop} {last' : β → Prop}

theorem traces_watch (keeps : Keeps part post) : Traces part (Watched.watch part) post := by
  intro feed points sliceable safe
  refine ⟨points, safe, ?_⟩
  unfold Watched.watch
  cases ran : part feed with
  | ok value later => exact ⟨rfl, keeps feed sliceable value later ran⟩
  | error stop later => rfl

theorem traces_pure {value : α} (given : post value) : Traces (pure value) (pure value) post :=
  fun _ points sliceable safe => ⟨points, safe, rfl, sliceable, given⟩

theorem traces_throw (stop : Stop) : Traces (throw stop) (throw stop) post :=
  fun _ points _ safe => ⟨points, safe, rfl⟩

theorem traces_bind (first : Traces part watched middle)
    (behind : ∀ value, middle value → Traces (next value) (next' value) last') :
    Traces (part >>= next) (watched >>= next') last' := by
  intro feed points sliceable safe
  obtain ⟨noted, safe, ran⟩ := first feed points sliceable safe
  have run : (part >>= next) feed = EStateM.bind part next feed := rfl
  have run' : (watched >>= next') (feed, points) = EStateM.bind watched next' (feed, points) := rfl
  rw [run, run', EStateM.bind, EStateM.bind]
  cases ended : part feed with
  | ok value later =>
      rw [ended] at ran
      obtain ⟨ran, sliceable, given⟩ := ran
      rw [ran]
      exact behind value given later noted sliceable safe
  | error stop later =>
      rw [ended] at ran
      rw [show watched (feed, points) = .error stop (later, noted) from ran]
      exact ⟨noted, safe, rfl⟩

/-- A point may be noted where it is safe. -/
theorem traces_note {point : Point} (safe : point.Safe) (behind : Traces part watched post) :
    Traces part (Watched.note point >>= fun _ => watched) post := by
  intro feed points sliceable before
  have all : ∀ other ∈ points ++ [point], other.Safe :=
    List.forall_mem_append.mpr ⟨before, List.forall_mem_singleton.mpr safe⟩
  exact behind feed _ sliceable all

theorem traces_note_if {condition : Bool} {point : Point} (safe : condition = true → point.Safe)
    (behind : Traces part watched post) :
    Traces part (Watched.noteIf condition point >>= fun _ => watched) post := by
  unfold Watched.noteIf
  split
  · exact traces_note (safe ‹_›) behind
  · exact behind

end Traces

theorem traces_carry_on (roll : Roll) (grouped : Bool) {again : Tail → Option (Whole × Span) → Descent (Roll × Signal)}
    {again' : Tail → Option (Whole × Span) → Option Pending → Watched (Roll × Signal)}
    (kept : Kept last pending roll.tail) (sliceable : token.Sliceable)
    (goesOn : ∀ tail last pending, Kept last pending tail →
      Traces (again tail last) (again' tail last pending) fun _ => True) :
    Traces (carryOn roll again token grouped last) (Watched.carryOn roll again' token grouped last pending)
      fun _ => True := by
  have slices (limited : token.kind.isLimit = true) : Sliced 2 token.text (token.text.drop 2) := by
    cases kind : token.kind with
    | limit limit => exact sliceable.limit limit kind
    | _ =>
        rw [kind] at limited
        cases limited
  apply traces_note_if slices
  apply traces_bind (traces_watch (keeps_suffix kept))
  rintro ⟨tail, flow⟩ leaves
  cases flow with
  | goOn last => exact goesOn tail last _ leaves
  | leave signal =>
      apply traces_note_if
      · exact fun die => leaves (of_decide_eq_true die)
      · exact traces_pure trivial

theorem waiting_safe (kept : Kept last pending tail) : (Point.waiting tail last pending).Safe := by
  refine ⟨kept, ?_⟩
  cases kept with
  | none => exact fun _ given => nomatch given
  | some sum =>
      intro kept given
      cases given
      exact sub_of_sum sum

theorem traces_dice (patience : Nat) (grouped : Bool) (single : Single) (kept : Kept last pending single.tail) :
    Traces (dice patience grouped single last) (Watched.dice patience grouped single last pending)
      fun _ => True := by
  induction patience generalizing single last pending with
  | zero => exact traces_throw _
  | succ patience ih =>
      apply traces_note (waiting_safe kept)
      apply traces_bind (traces_watch keeps_advance)
      intro token sliceable
      have shared := traces_carry_on (.single single) grouped kept sliceable fun tail last pending kept =>
        ih { single with tail } kept
      cases kind : token.kind with
      | reroll once =>
          apply traces_bind (traces_watch keeps_comparison)
          exact fun test _ => ih _ .none
      | explode kind =>
          apply traces_bind (traces_watch keeps_comparison)
          exact fun test _ => ih _ .none
      | sort order => exact ih _ .none
      | _ => exact shared

theorem traces_behind (first : Roll) (others : List Roll) (combined : Bool) (patience : Nat) (grouped : Bool)
    (kept : Kept last pending tail) :
    Traces (behind first others combined patience grouped tail last)
      (Watched.behind first others combined patience grouped tail last pending) fun _ => True := by
  induction patience generalizing tail last pending with
  | zero => exact traces_throw _
  | succ patience ih =>
      apply traces_note (waiting_safe kept)
      apply traces_bind (traces_watch keeps_advance)
      intro token sliceable
      exact traces_carry_on (.group first others tail combined false) grouped kept sliceable fun _ _ _ kept => ih kept

theorem keeps_counted (sliceable : token.Sliceable) (kind : token.kind = .number ∨ token.kind = .die) :
    Keeps (counted token) fun named => named.2.kind = .die ∧ named.2.Sliceable := by
  unfold counted
  split
  · apply keeps_bind (keeps_ask _)
    intro multiplier _
    apply keeps_bind (keeps_expect .die)
    exact fun _ expected => keeps_pure expected
  · rename_i notNumber
    exact keeps_pure ⟨kind.resolve_left notNumber, sliceable⟩

theorem traces_single (patience : Nat) (grouped : Bool) (sliceable : token.Sliceable)
    (kind : token.kind = .number ∨ token.kind = .die) :
    Traces (single patience token grouped) (Watched.single patience token grouped) fun _ => True := by
  apply traces_bind (traces_watch (keeps_counted sliceable kind))
  rintro ⟨multiplier, named⟩ ⟨die, sliceable⟩
  have slices : (Point.slicing 1 named).Safe := sliceable.die die
  apply traces_note slices
  apply traces_bind (traces_watch (keeps_ask _))
  exact fun die _ => traces_dice patience grouped (.plain multiplier die) .none

theorem keeps_link (opening : Span) (seen : Option Joint) (signal : Signal) :
    Keeps (link opening seen signal) fun _ => True := by
  cases signal with
  | handing value sign =>
      apply keeps_bind (keeps_ask _)
      exact fun _ _ => keeps_pure trivial
  | ended =>
      apply keeps_bind keeps_advance
      intro token _
      split
      · apply keeps_bind (keeps_ask _)
        exact fun _ _ => keeps_pure trivial
      · exact keeps_pure trivial
      · exact keeps_throw _
      · exact keeps_unexpected token

section Group

variable {roll : Token → Descent (Roll × Signal)} {roll' : Token → Watched (Roll × Signal)}
  (traces : ∀ token, token.Sliceable → Traces (roll token) (roll' token) fun _ => True)

include traces

theorem traces_member (opening : Span) (multiplier : Option Whole) :
    Traces (member roll opening multiplier) (Watched.member roll' opening multiplier) fun _ => True := by
  apply traces_bind (traces_watch keeps_advance)
  intro token sliceable
  dsimp only
  split
  · exact traces_throw _
  · apply traces_bind (traces token sliceable)
    exact fun _ _ => traces_pure trivial

theorem traces_members (opening : Span) (patience : Nat) (seen : Option Joint) (others : List Roll) (signal : Signal) :
    Traces (members roll opening patience seen others signal)
      (Watched.members roll' opening patience seen others signal) fun _ => True := by
  induction patience generalizing seen others signal with
  | zero => exact traces_throw _
  | succ patience ih =>
      apply traces_bind (traces_watch (keeps_link opening seen signal))
      intro joint _
      cases joint with
      | none => exact traces_pure trivial
      | some next =>
          apply traces_bind (traces_member traces opening next.2)
          exact fun member _ => ih _ _ member.2

theorem traces_group (patience : Nat) (opening : Span) (grouped : Bool) :
    Traces (group roll patience opening grouped) (Watched.group roll' patience opening grouped) fun _ => True := by
  apply traces_bind (traces_member traces opening none)
  intro first _
  apply traces_bind (traces_members traces opening patience none [] first.2)
  exact fun others _ => traces_behind first.1 others.1 _ patience grouped .none

end Group

theorem traces_roll (patience : Nat) (grouped : Bool) (sliceable : token.Sliceable) :
    Traces (roll patience token grouped) (Watched.roll patience token grouped) fun _ => True := by
  induction patience generalizing token grouped with
  | zero => exact traces_throw _
  | succ patience ih =>
      unfold roll Watched.roll
      cases kind : token.kind with
      | number => exact traces_single patience grouped sliceable (.inl kind)
      | die => exact traces_single patience grouped sliceable (.inr kind)
      | opening => exact traces_group (fun _ sliceable => ih true sliceable) patience token.span grouped
      | _ => exact traces_watch (keeps_unexpected token)

theorem traces_whole (patience : Nat) : Traces (whole patience) (Watched.whole patience) fun _ => True := by
  apply traces_bind (traces_watch keeps_advance)
  intro token sliceable
  apply traces_bind (traces_roll patience false sliceable)
  exact fun _ _ => traces_pure trivial

open Watched (forget points)

/-- The watch changes nothing, and whatever it notes is safe. -/
theorem descend_watched (patience : Nat) (cs : List Char) :
    forget (descendWatched patience cs) = descend patience cs ∧
      ∀ point ∈ points (descendWatched patience cs), point.Safe := by
  have sliceable : (Feed.start cs).Sliceable := ⟨fun _ => sliceable_of_mem, fun _ none => nomatch none⟩
  obtain ⟨noted, safe, ran⟩ := traces_whole patience (Feed.start cs) [] sliceable (List.forall_mem_nil _)
  have run : whole patience (Feed.start cs) = descend patience cs := rfl
  have run' : Watched.whole patience (Feed.start cs, []) = descendWatched patience cs := rfl
  rw [run, run'] at ran
  cases ended : descend patience cs with
  | ok roll feed =>
      rw [ended] at ran
      rw [ran.1]
      exact ⟨rfl, safe⟩
  | error stop feed =>
      rw [ended] at ran
      rw [show descendWatched patience cs = .error stop (feed, noted) from ran]
      exact ⟨rfl, safe⟩

theorem sliceable_of_handed {cs : List Char} {feed : Feed} (stutters : Stutters (wordsMet (trail cs)) feed.handed) :
    ∀ token ∈ feed.handed, token.Sliceable := by
  intro token found
  have word : token ∈ met (trail cs) := (List.mem_filter.mp (mem_of_stutters stutters found)).1
  have start := met_trail_prefix cs
  have scripted : token ∈ tokens cs ++ [Token.ending (byteCount cs)] := start.subset word
  rcases List.mem_append.mp scripted with listed | last
  · exact sliceable_of_mem listed
  · rw [List.mem_singleton.mp last]
    exact sliceable_ending (byteCount cs)

/-- Wherever a roll keeps a value for the next token, its modifier is the one from before the sign of that value with
the value added, so that taking it off again is exact, and a die that takes the value leaves the roll with just what it
had. Of all tokens that are handed out, the text of a die can be read from behind one whole character and that of a
limit from behind two. A number is in range under either sign. So no arithmetic overflows that is not checked: the
descent ends with the roll that the notation denotes, or with the fault that is found in it. -/
theorem descend_safe {text : String} {patience : Nat} (enough : (tokens text.toList).length < patience) :
    let watched := descendWatched patience text.toList
    forget watched = descend patience text.toList ∧ (∀ point ∈ points watched, point.Safe) ∧
      (∀ (negative : Bool) (number : Token) (size : Whole), number.number = .ok size →
        Whole.InRange ((unit negative).val * size.val)) ∧
      ∃ feed, descend patience text.toList = endedWith feed (parse text) ∧
        ∀ token ∈ feed.handed, token.Sliceable := by
  obtain ⟨same, safe⟩ := descend_watched patience text.toList
  have fewer : (words text.toList).length ≤ (tokens text.toList).length := List.length_filter_le _ _
  obtain ⟨feed, ended, -, stutters⟩ := descend_eq_read (Nat.lt_of_le_of_lt fewer enough)
  refine ⟨same, safe, ?_, feed, ended, sliceable_of_handed stutters⟩
  intro negative number size known
  obtain ⟨value, product, -⟩ := signed_number_of_number negative known
  rw [← Whole.ofInt?_eq_some.mp product]
  exact ⟨value.low, value.high⟩

/-- The die takes the two that was to be subtracted, and the three stays. -/
theorem descend_safe_past_handing :
    let three : Whole := ⟨3, by decide, by decide⟩
    let minusTwo : Whole := ⟨-2, by decide, by decide⟩
    let best : Tail := { Tail.plain with limit := some ⟨.keepHighest, 1, by decide⟩ }
    (tokens "{d6kh1+3-2d8}".toList).length < 10 ∧
      points (descendWatched 10 "{d6kh1+3-2d8}".toList) =
        [.slicing 1 ⟨.die, ['d', '6'], ⟨1, 3⟩⟩, .waiting .plain none none,
          .slicing 2 ⟨.limit .keepHighest, ['k', 'h', '1'], ⟨3, 6⟩⟩, .waiting best none none,
          .waiting { best with modifier := three } (some (three, ⟨6, 7⟩)) (some ⟨three, ⟨6, 7⟩, .zero⟩),
          .waiting { best with modifier := .one } (some (minusTwo, ⟨8, 9⟩)) (some ⟨minusTwo, ⟨8, 9⟩, three⟩),
          .givenBack three (some ⟨minusTwo, ⟨8, 9⟩, three⟩), .slicing 1 ⟨.die, ['d', '8'], ⟨10, 12⟩⟩,
          .waiting .plain none none, .waiting .plain none none] ∧
      ∀ point ∈ points (descendWatched 10 "{d6kh1+3-2d8}".toList), point.Safe := by
  intro three minusTwo best
  have count : (tokens "{d6kh1+3-2d8}".toList).length = 9 := by cbv
  have enough : (tokens "{d6kh1+3-2d8}".toList).length < 10 := by rw [count]; decide
  exact ⟨enough, by cbv, (descend_safe enough).2.1⟩

end Descent

end Tabletop.Notation
