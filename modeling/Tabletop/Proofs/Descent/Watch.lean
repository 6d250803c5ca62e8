import Tabletop.Proofs.Descent.Suffixes

/-!
# A descent that is watched

A watched descent does what the descent does and notes the points where it relies on something that it does not check:
wherever a roll waits for its next suffix, what it keeps of the modifier read last and what its modifier was before that
one; where a die takes the value, what the roll is left with; and wherever the text of a token is read from a byte on.
-/

namespace Tabletop.Notation

set_option autoImplicit false

def Kind.isLimit : Kind → Bool
  | limit _ => true
  | _ => false

namespace Descent

/-- A point of a descent at which nothing is checked. -/
inductive Point where
  /-- A roll waits for its next suffix. The value that it may have to give back is known to the watch together with its
  sign and the modifier from before that sign. -/
  | waiting (tail : Tail) (last : Option (Whole × Span)) (pending : Option Pending)
  /-- The value was given back, and the roll has this modifier now. -/
  | givenBack (modifier : Whole) (pending : Option Pending)
  /-- The text of the token is read from the byte on. -/
  | slicing (byte : Nat) (token : Token)
deriving DecidableEq

/-- A descent with the points that were noted, the last one at the end. -/
abbrev Watched := EStateM Stop (Feed × List Point)

namespace Watched

variable {α : Type}

def watch (part : Descent α) : Watched α := fun state =>
  match part state.1 with
  | .ok value feed => .ok value (feed, state.2)
  | .error stop feed => .error stop (feed, state.2)

def note (point : Point) : Watched Unit := modify fun state => (state.1, state.2 ++ [point])

def noteIf (condition : Bool) (point : Point) : Watched Unit := if condition then note point else pure ()

/-- What a suffix makes of the roll; the last value is the one that its token was the sign of. -/
def carryOn (roll : Roll) (again : Tail → Option (Whole × Span) → Option Pending → Watched (Roll × Signal))
    (token : Token) (grouped : Bool) (last : Option (Whole × Span)) (pending : Option Pending) :
    Watched (Roll × Signal) := do
  noteIf token.kind.isLimit (.slicing 2 token)
  let (tail, flow) ← watch (suffix roll.tail token grouped last)
  match flow with
  | .goOn last => again tail last (last.map fun kept => ⟨kept.1, token.span, roll.tail.modifier⟩)
  | .leave signal => do
    noteIf (token.kind = .die) (.givenBack tail.modifier pending)
    return (roll.withTail tail, signal)

def dice : Nat → Bool → Single → Option (Whole × Span) → Option Pending → Watched (Roll × Signal)
  | 0, _, _, _, _ => throw .endless
  | patience + 1, grouped, single, last, pending => do
    note (.waiting single.tail last pending)
    let token ← watch advance
    match token.kind with
    | .reroll once => do
      let test ← watch comparison
      dice patience grouped { single with rerolls := single.rerolls ++ [⟨test, once⟩] } none none
    | .explode kind => do
      let test ← watch comparison
      dice patience grouped { single with exploding := some ⟨kind, test⟩ } none none
    | .sort order => dice patience grouped { single with order } none none
    | _ =>
      carryOn (.single single) (fun tail => dice patience grouped { single with tail }) token grouped last pending

def single (patience : Nat) (first : Token) (grouped : Bool) : Watched (Roll × Signal) := do
  let (multiplier, token) ← watch (counted first)
  note (.slicing 1 token)
  let die ← watch (ask token.die)
  dice patience grouped (.plain multiplier die) none none

section Group

variable (roll : Token → Watched (Roll × Signal)) (opening : Span)

def member (multiplier : Option Whole) : Watched (Roll × Signal) := do
  let token ← watch advance
  if token.kind = .ending then
    throw (.fault (.unterminatedGroup opening))
  else do
    let (roll, signal) ← roll token
    return (patched multiplier roll, signal)

def members : Nat → Option Joint → List Roll → Signal → Watched (List Roll × Option Joint)
  | 0, _, _, _ => throw .endless
  | patience + 1, seen, others, signal => do
    match ← watch (link opening seen signal) with
    | none => return (others, seen)
    | some (joint, multiplier) => do
      let (other, signal) ← member roll opening multiplier
      members patience (some joint) (others ++ [other]) signal

end Group

def behind (first : Roll) (others : List Roll) (combined : Bool) :
    Nat → Bool → Tail → Option (Whole × Span) → Option Pending → Watched (Roll × Signal)
  | 0, _, _, _, _ => throw .endless
  | patience + 1, grouped, tail, last, pending => do
    note (.waiting tail last pending)
    let token ← watch advance
    carryOn (.group first others tail combined false) (behind first others combined patience grouped) token grouped last
      pending

def group (roll : Token → Watched (Roll × Signal)) (patience : Nat) (opening : Span) (grouped : Bool) :
    Watched (Roll × Signal) := do
  let (first, signal) ← member roll opening none
  let (others, joint) ← members roll opening patience none [] signal
  behind first others (joint ≠ some .comma) patience grouped .plain none none

def roll : Nat → Token → Bool → Watched (Roll × Signal)
  | 0, _, _ => throw .endless
  | patience + 1, token, grouped =>
    match token.kind with
    | .number | .die => single patience token grouped
    | .opening => group (fun token => roll patience token true) patience token.span grouped
    | _ => watch (ask token.unexpected)

def whole (patience : Nat) : Watched Roll := do
  let token ← watch advance
  let (roll, _) ← roll patience token false
  return roll

/-- How the descent itself ends. -/
def forget : EStateM.Result Stop (Feed × List Point) α → EStateM.Result Stop Feed α
  | .ok value state => .ok value state.1
  | .error stop state => .error stop state.1

def points : EStateM.Result Stop (Feed × List Point) α → List Point
  | .ok _ state => state.2
  | .error _ state => state.2

end Watched

/-- Reads the characters by a watched descent. -/
def descendWatched (patience : Nat) (cs : List Char) : EStateM.Result Stop (Feed × List Point) Roll :=
  (Watched.whole patience).run (.start cs, [])

end Descent

end Tabletop.Notation
