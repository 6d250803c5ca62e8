import Tabletop.Notation.Lexeme
import Tabletop.Notation.Numeral
import Tabletop.Roll.Equality

/-!
# Reading a notation

A reading takes each token once, from left to right, and keeps the groups still open in a stack. A signed number after a
roll is a modifier of that roll, until a die follows directly: then it was the multiplier of the next member, and the
roll before it gets back the modifier it had. The members of a group are joined by signs or by commas, never by both.
-/

namespace Tabletop.Notation

set_option autoImplicit false

/-- A modifier that the next token may still turn into a multiplier, with the modifier that the roll had before. -/
structure Pending where
  value : Whole
  sign : Span
  before : Whole
deriving DecidableEq

inductive Slot where
  | reroll (once : Bool)
  | exploding (kind : Explosion.Kind)
  | success
  | failure
deriving DecidableEq

inductive Joint where
  | comma
  | sign
deriving DecidableEq

structure Frame where
  opening : Span
  negative : Bool
  members : List Roll
  joint : Option Joint
deriving DecidableEq

inductive Expecting where
  | roll
  | die (multiplier : Whole)
  | suffix (roll : Roll) (pending : Option Pending)
  | test (roll : Roll) (slot : Slot)
  | threshold (roll : Roll) (slot : Slot) (relation : Relation)
  | modifier (roll : Roll) (negative : Bool) (sign : Span)
deriving DecidableEq

structure Reading where
  groups : List Frame
  expecting : Expecting
deriving DecidableEq

namespace Slot

/-- Puts a test where it was read for. A group is never asked for a reroll or an explosion and stays as it is. -/
def fill (test : Test) (roll : Roll) : Slot → Roll
  | success =>
    roll.withTail { roll.tail with success := some test }
  | failure =>
    roll.withTail { roll.tail with failure := some test }
  | reroll once =>
    match roll with
    | .single single => .single { single with rerolls := single.rerolls ++ [⟨test, once⟩] }
    | group => group
  | exploding kind =>
    match roll with
    | .single single => .single { single with exploding := some ⟨kind, test⟩ }
    | group => group

end Slot

namespace Frame

def push (frame : Frame) (member : Roll) (joint : Joint) : Frame :=
  { frame with members := frame.members ++ [member], joint := some joint }

def close (frame : Frame) (last : Roll) : Roll :=
  let combined : Bool := frame.joint ≠ some .comma
  match frame.members with
  | [] => .group last [] .plain combined frame.negative
  | first :: others => .group first (others ++ [last]) .plain combined frame.negative

end Frame

namespace Reading

def start : Reading := ⟨[], .roll⟩

/-- A die or a brace starts a roll, which takes the multiplier handed to it; a group takes its sign alone. -/
def begin (groups : List Frame) (multiplier : Whole) (token : Token) : Except Fault Reading :=
  match token.kind with
  | .die => do
    let die ← token.die
    .ok ⟨groups, .suffix (.single (.plain multiplier die)) none⟩
  | .opening =>
    .ok ⟨⟨token.span, multiplier.isNegative, [], none⟩ :: groups, .roll⟩
  | _ =>
    token.unexpected

/-- The roll is a finished member and the signed value belongs to the next one, which the token starts. -/
def hand (groups : List Frame) (member : Roll) (value : Whole) (sign : Span) (token : Token) : Except Fault Reading :=
  match groups with
  | [] =>
    token.unexpected
  | frame :: outer =>
    if frame.joint = some .comma then
      .error (.unexpectedToken [if value.isNegative then '-' else '+'] sign)
    else
      begin (frame.push member .sign :: outer) value token

def continueWith (groups : List Frame) (roll : Roll) : Except Fault Reading := .ok ⟨groups, .suffix roll none⟩

def afterNumber (groups : List Frame) (roll : Roll) (negative : Bool) (sign : Span) (token : Token) :
    Except Fault Reading := do
  let value ← token.signedNumber negative
  let before := roll.tail.modifier
  let modifier ← token.orUnexpected (before.add? value)
  .ok ⟨groups, .suffix (roll.withTail { roll.tail with modifier }) (some ⟨value, sign, before⟩)⟩

def suffix (groups : List Frame) (roll : Roll) (pending : Option Pending) (token : Token) : Except Fault Reading :=
  match token.kind with
  | .reroll once =>
    match roll with
    | .single _ => .ok ⟨groups, .test roll (.reroll once)⟩
    | .group .. => token.unexpected
  | .explode kind =>
    match roll with
    | .single _ => .ok ⟨groups, .test roll (.exploding kind)⟩
    | .group .. => token.unexpected
  | .sort order =>
    match roll with
    | .single single => continueWith groups (.single { single with order })
    | .group .. => token.unexpected
  | .limit kind => do
    let limit ← token.limit kind
    continueWith groups (roll.withTail { roll.tail with limit := some limit })
  | .compare relation =>
    .ok ⟨groups, .threshold roll .success relation⟩
  | .failure =>
    .ok ⟨groups, .test roll .failure⟩
  | .plus =>
    .ok ⟨groups, .modifier roll false token.span⟩
  | .minus =>
    .ok ⟨groups, .modifier roll true token.span⟩
  | .closing =>
    match groups with
    | [] => token.unexpected
    | frame :: outer => continueWith outer (frame.close roll)
  | .comma =>
    match groups with
    | [] => token.unexpected
    | frame :: outer =>
      if frame.joint = some .sign then token.unexpected else .ok ⟨frame.push roll .comma :: outer, .roll⟩
  | .die =>
    match pending with
    | none => token.unexpected
    | some ⟨value, sign, before⟩ =>
      hand groups (roll.withTail { roll.tail with modifier := before }) value sign token
  | _ =>
    token.unexpected

def step (reading : Reading) (token : Token) : Except Fault Reading :=
  match reading.expecting with
  | .roll =>
    match token.kind with
    | .number => do
      let multiplier ← token.number
      .ok ⟨reading.groups, .die multiplier⟩
    | _ =>
      begin reading.groups .one token
  | .die multiplier =>
    match token.kind with
    | .die => begin reading.groups multiplier token
    | _ => token.unexpected
  | .suffix roll pending =>
    suffix reading.groups roll pending token
  | .test roll slot =>
    match token.kind with
    | .compare relation =>
      .ok ⟨reading.groups, .threshold roll slot relation⟩
    | .number => do
      let threshold ← token.number
      continueWith reading.groups (slot.fill ⟨.equal, threshold⟩ roll)
    | _ =>
      token.unexpected
  | .threshold roll slot relation =>
    match token.kind with
    | .number => do
      let threshold ← token.number
      continueWith reading.groups (slot.fill ⟨relation, threshold⟩ roll)
    | _ =>
      token.unexpected
  | .modifier roll negative sign =>
    match token.kind with
    | .number => afterNumber reading.groups roll negative sign token
    | .die | .opening => hand reading.groups roll (if negative then .minusOne else .one) sign token
    | _ => token.unexpected

/-- The end of a notation of so many bytes. Where a roll is finished or due inside a group, that group is to blame. -/
def finish (reading : Reading) (length : Nat) : Except Fault Roll :=
  match reading.expecting, reading.groups with
  | .suffix roll _, [] => .ok roll
  | .suffix _ _, frame :: _ => .error (.unterminatedGroup frame.opening)
  | .roll, frame :: _ => .error (.unterminatedGroup frame.opening)
  | _, _ => (Token.ending length).unexpected

end Reading

def read (cs : List Char) : Except Fault Roll := do
  let reading ← ((tokens cs).filter (!·.isSpace)).foldlM Reading.step Reading.start
  reading.finish (byteCount cs)

def parse (text : String) : Except Fault Roll := read text.toList

end Tabletop.Notation
