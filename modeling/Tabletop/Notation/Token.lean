import Tabletop.Roll.Basic

/-!
# Tokens of the notation

A token has a kind, its text and the bytes that the text takes in the notation. The kind carries what the text settles
by its letters alone; digits are read later, where their range is known.
-/

namespace Tabletop.Notation

set_option autoImplicit false

inductive Kind where
  | space
  | number
  | die
  | plus
  | minus
  | failure
  | explode (kind : Explosion.Kind)
  | limit (kind : Limit.Kind)
  | reroll (once : Bool)
  | sort (order : Order)
  | compare (relation : Relation)
  | opening
  | closing
  | comma
  | ending
  | illegal
deriving DecidableEq

/-- Byte offsets into the notation, from the first byte to just behind the last. -/
structure Span where
  start : Nat
  stop : Nat
deriving DecidableEq

structure Token where
  kind : Kind
  text : List Char
  span : Span
deriving DecidableEq

namespace Kind

/-- The name under which a kind is announced. Both redraws share one, and so do both orders. -/
def name : Kind → String
  | space => "<whitespace>"
  | number => "<number>"
  | die => "<die>"
  | plus => "'+'"
  | minus => "'-'"
  | failure => "'f'"
  | explode .exploding => "'!'"
  | explode .compounded => "'!!'"
  | explode .penetrating => "'!p'"
  | limit .keepHighest => "'kh'"
  | limit .keepLowest => "'kl'"
  | limit .dropHighest => "'dh'"
  | limit .dropLowest => "'dl'"
  | reroll _ => "'r'"
  | sort _ => "'s'"
  | compare .greater => "'>'"
  | compare .less => "'<'"
  | compare .equal => "'='"
  | opening => "'\x7b'"
  | closing => "'\x7d'"
  | comma => "','"
  | ending => "<end of input>"
  | illegal => "<illegal>"

end Kind

namespace Token

def isSpace (token : Token) : Bool := token.kind = .space

def ending (length : Nat) : Token := ⟨.ending, [], ⟨length, length⟩⟩

end Token

end Tabletop.Notation
