import Tabletop.Notation.Cursor
import Tabletop.Notation.Trail

/-!
# Reading by descent

The same notation is read by functions that call each other, one for each part of a roll. They draw on a cursor, push a
token back when it is not theirs, and hand control back to the group around a roll with a signal. What a signed number
was is only known from the next token, so a member may turn out to be complete with a modifier that is not its own: the
group takes it from there and gives it to the next member as its multiplier.

Nothing here is bounded by the notation itself, so every function that calls itself is given its patience.
-/

namespace Tabletop.Notation

set_option autoImplicit false

/-- A cursor and a record of what came through it: the marks of the reading, in which a token stands once, and the
tokens that were handed out, in which it stands as often as it was asked for. -/
structure Feed where
  cursor : Cursor
  marks : List Mark
  handed : List Token

/-- Why a descent ends without a roll. Only faults are meant to happen. -/
inductive Stop where
  | fault (fault : Fault)
  /-- Arithmetic that nothing checks left the range. -/
  | overflow
  | endless
deriving DecidableEq

namespace Feed

def start (cs : List Char) : Feed := ⟨.start cs, [], []⟩

def scan (feed : Feed) : Token × Feed :=
  let read := feed.cursor.scan
  let again := feed.cursor.pushedBack && feed.cursor.last.isSome
  (read.1, { feed with cursor := read.2, marks := if again then feed.marks else feed.marks ++ [.met read.1] })

def skip (feed : Feed) : Token × Feed :=
  if _ : feed.scan.1.isSpace = true then skip feed.scan.2 else feed.scan
termination_by feed.cursor.measure
decreasing_by exact Cursor.measure_scan_lt feed.cursor ‹_›

def hand (feed : Feed) (token : Token) : Feed := { feed with handed := feed.handed ++ [token] }

end Feed

abbrev Descent := EStateM Stop Feed

namespace Descent

/-- How a roll hands control back to the group around it. -/
inductive Signal where
  /-- The roll is complete, and what ended it was pushed back. -/
  | ended
  /-- The signed value behind the roll is the multiplier of the next member. -/
  | handing (value : Whole) (sign : Span)
deriving DecidableEq

inductive Signed where
  | number (value : Whole) (token : Token)
  /-- The next member, whose start was pushed back. -/
  | member (unit : Whole)

/-- Whether more suffixes may follow. A modifier just read is kept, as the next token may make it a multiplier. -/
inductive Flow where
  | goOn (last : Option (Whole × Span))
  | leave (signal : Signal)

def advance : Descent Token := fun feed =>
  let read := feed.skip
  .ok read.1 (read.2.hand read.1)

def rewind : Descent Unit := modify fun feed => { feed with cursor := feed.cursor.unscan }

def mark (mark : Mark) : Descent Unit := modify fun feed => { feed with marks := feed.marks ++ [mark] }

def ask {α : Type} : Except Fault α → Descent α
  | .ok value => pure value
  | .error fault => throw (.fault fault)

/-- The result of arithmetic that nothing checks. -/
def unchecked : Option Whole → Descent Whole
  | some value => pure value
  | none => throw .overflow

def expect (kind : Kind) : Descent Token := do
  let token ← advance
  if token.kind = kind then return token else ask token.unexpected

def threshold (relation : Relation) : Descent Test := do
  let value ← expect .number
  return ⟨relation, ← ask value.number⟩

def testFrom (token : Token) : Descent Test :=
  match token.kind with
  | .number => do return ⟨.equal, ← ask token.number⟩
  | .compare relation => threshold relation
  | _ => ask token.unexpected

def comparison : Descent Test := do testFrom (← advance)

/-- Pushes a token back for the group around the roll. Without a group the token means nothing. -/
def giveBack {α : Type} (grouped : Bool) (token : Token) (value : α) : Descent α :=
  if grouped then do
    rewind
    return value
  else
    ask token.unexpected

def numberAfterSign (unit : Whole) (token : Token) : Descent Signed := do
  let size ← ask token.number
  return .number (← unchecked (Whole.ofInt? (unit.val * size.val))) token

def afterSign (sign : Token) (grouped : Bool) : Descent Signed := do
  let unit : Whole := if sign.kind = .minus then .minusOne else .one
  let token ← advance
  match token.kind with
  | .number => numberAfterSign unit token
  | .die | .opening => giveBack grouped token (.member unit)
  | _ => ask token.unexpected

/-- A number behind a sign is added to the modifier; a bare sign is the multiplier of the next member. -/
def addSigned (tail : Tail) (sign : Token) (grouped : Bool) : Descent (Tail × Flow) := do
  match ← afterSign sign grouped with
  | .number value number => do
    let modifier ← ask (number.orUnexpected (tail.modifier.add? value))
    return ({ tail with modifier }, .goOn (some (value, sign.span)))
  | .member unit => return (tail, .leave (.handing unit sign.span))

/-- The value of the last modifier goes to the die, and its addition is undone. -/
def takeModifier (tail : Tail) (die : Token) (value : Whole) (sign : Span) : Descent (Tail × Flow) := do
  mark (.took value die)
  rewind
  let modifier ← unchecked (tail.modifier.sub? value)
  return ({ tail with modifier }, .leave (.handing value sign))

def suffix (tail : Tail) (token : Token) (grouped : Bool) (last : Option (Whole × Span)) : Descent (Tail × Flow) :=
  match token.kind with
  | .plus | .minus => addSigned tail token grouped
  | .limit kind => do
    let limit ← ask (token.limit kind)
    return ({ tail with limit := some limit }, .goOn none)
  | .compare _ => do
    rewind
    let test ← comparison
    return ({ tail with success := some test }, .goOn none)
  | .failure => do
    let test ← comparison
    return ({ tail with failure := some test }, .goOn none)
  | .ending => do
    rewind
    return (tail, .leave .ended)
  | .closing | .comma => giveBack grouped token (tail, .leave .ended)
  | .die =>
    match grouped, last with
    | true, some (value, sign) => takeModifier tail token value sign
    | _, _ => ask token.unexpected
  | _ => ask token.unexpected

def carryOn (roll : Roll) (again : Tail → Option (Whole × Span) → Descent (Roll × Signal)) (token : Token)
    (grouped : Bool) (last : Option (Whole × Span)) : Descent (Roll × Signal) := do
  let (tail, flow) ← suffix roll.tail token grouped last
  match flow with
  | .goOn last => again tail last
  | .leave signal => return (roll.withTail tail, signal)

def dice : Nat → Bool → Single → Option (Whole × Span) → Descent (Roll × Signal)
  | 0, _, _, _ => throw .endless
  | patience + 1, grouped, single, last => do
    let token ← advance
    match token.kind with
    | .reroll once => do
      let test ← comparison
      dice patience grouped { single with rerolls := single.rerolls ++ [⟨test, once⟩] } none
    | .explode kind => do
      let test ← comparison
      dice patience grouped { single with exploding := some ⟨kind, test⟩ } none
    | .sort order => dice patience grouped { single with order } none
    | _ => carryOn (.single single) (fun tail => dice patience grouped { single with tail }) token grouped last

def counted (first : Token) : Descent (Whole × Token) :=
  if first.kind = .number then do
    let multiplier ← ask first.number
    return (multiplier, ← expect .die)
  else
    return (.one, first)

def single (patience : Nat) (first : Token) (grouped : Bool) : Descent (Roll × Signal) := do
  let (multiplier, token) ← counted first
  let die ← ask token.die
  dice patience grouped (.plain multiplier die) none

/-- Gives a member the multiplier that the roll before it handed over; a group takes its sign alone. -/
def applyMultiplier (multiplier : Whole) : Roll → Roll
  | .single single => .single { single with multiplier }
  | .group first others tail combined _ => .group first others tail combined multiplier.isNegative

def patched (multiplier : Option Whole) (roll : Roll) : Roll := multiplier.elim roll (applyMultiplier · roll)

def join (seen : Option Joint) (joint : Joint) (text : List Char) (span : Span) : Except Fault Joint :=
  if seen = none ∨ seen = some joint then .ok joint else .error (.unexpectedToken text span)

section Group

variable (roll : Token → Descent (Roll × Signal)) (opening : Span)

def memberFrom (multiplier : Option Whole) (token : Token) : Descent (Roll × Signal) := do
  let (roll, signal) ← roll token
  return (patched multiplier roll, signal)

def member (multiplier : Option Whole) : Descent (Roll × Signal) := do
  let token ← advance
  if token.kind = .ending then
    throw (.fault (.unterminatedGroup opening))
  else
    memberFrom roll multiplier token

/-- What joins the member that gave the signal to the next one, unless the group is closed. -/
def link (seen : Option Joint) : Signal → Descent (Option (Joint × Option Whole))
  | .handing value sign => do
    let joint ← ask (join seen .sign [if value.isNegative then '-' else '+'] sign)
    return some (joint, some value)
  | .ended => do
    let token ← advance
    match token.kind with
    | .comma => do
      let joint ← ask (join seen .comma token.text token.span)
      return some (joint, none)
    | .closing => return none
    | .ending => throw (.fault (.unterminatedGroup opening))
    | _ => ask token.unexpected

def members : Nat → Option Joint → List Roll → Signal → Descent (List Roll × Option Joint)
  | 0, _, _, _ => throw .endless
  | patience + 1, seen, others, signal => do
    match ← link opening seen signal with
    | none => return (others, seen)
    | some (joint, multiplier) => do
      let (other, signal) ← member roll opening multiplier
      members patience (some joint) (others ++ [other]) signal

end Group

def behind (first : Roll) (others : List Roll) (combined : Bool) :
    Nat → Bool → Tail → Option (Whole × Span) → Descent (Roll × Signal)
  | 0, _, _, _ => throw .endless
  | patience + 1, grouped, tail, last => do
    let token ← advance
    carryOn (.group first others tail combined false) (behind first others combined patience grouped) token grouped last

def group (roll : Token → Descent (Roll × Signal)) (patience : Nat) (opening : Span) (grouped : Bool) :
    Descent (Roll × Signal) := do
  let (first, signal) ← member roll opening none
  let (others, joint) ← members roll opening patience none [] signal
  behind first others (joint ≠ some .comma) patience grouped .plain none

def roll : Nat → Token → Bool → Descent (Roll × Signal)
  | 0, _, _ => throw .endless
  | patience + 1, token, grouped =>
    match token.kind with
    | .number | .die => single patience token grouped
    | .opening => group (fun token => roll patience token true) patience token.span grouped
    | _ => ask token.unexpected

def whole (patience : Nat) : Descent Roll := do
  let token ← advance
  let (roll, _) ← roll patience token false
  return roll

end Descent

def descend (patience : Nat) (cs : List Char) : EStateM.Result Stop Feed Roll :=
  (Descent.whole patience).run (.start cs)

end Tabletop.Notation
