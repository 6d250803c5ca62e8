import Tabletop.Notation.Reading

/-!
# The trail of a reading

What a reading met on its way: every token up to the one at fault, white space as well, and at the end the ending. A
die that takes the modifier before it for its multiplier is marked behind its token.
-/

namespace Tabletop.Notation

set_option autoImplicit false

inductive Mark where
  | met (token : Token)
  | took (multiplier : Whole) (die : Token)
deriving DecidableEq

namespace Reading

/-- The multiplier that the token takes over from the roll before it. -/
def taken? (reading : Reading) (token : Token) : Option Whole :=
  match reading.expecting, reading.groups, token.kind with
  | .suffix _ (some pending), _ :: _, .die => some pending.value
  | _, _, _ => none

def trail (length : Nat) (reading : Reading) : List Token → List Mark
  | [] =>
    [.met (Token.ending length)]
  | token :: rest =>
    if token.isSpace then
      .met token :: trail length reading rest
    else
      let further := match reading.step token with
        | .ok next => trail length next rest
        | .error _ => []
      match reading.taken? token with
      | some multiplier => .met token :: .took multiplier token :: further
      | none => .met token :: further

end Reading

def trail (cs : List Char) : List Mark := Reading.start.trail (byteCount cs) (tokens cs)

end Tabletop.Notation
