import Tabletop.Roll.Basic

/-!
# The canonical notation of a roll

Every roll has one canonical text: the multiplier unless it is 1, the die, rerolls, explosion, limit with its amount,
success, failure, order and modifier, in this order. Members of a combined group are joined by their signs, those of
any other group by commas.
-/

namespace Tabletop

set_option autoImplicit false

namespace Reroll

def text (reroll : Reroll) : List Char :=
  (if reroll.once then ['r', 'o'] else ['r']) ++ reroll.test.announcedText

end Reroll

namespace Explosion

def Kind.text : Explosion.Kind → List Char
  | exploding => ['!']
  | compounded => ['!', '!']
  | penetrating => ['!', 'p']

def text (explosion : Explosion) : List Char := explosion.kind.text ++ explosion.test.announcedText

end Explosion

namespace Limit

def Kind.text : Limit.Kind → List Char
  | keepHighest => ['k', 'h']
  | keepLowest => ['k', 'l']
  | dropHighest => ['d', 'h']
  | dropLowest => ['d', 'l']

def text (limit : Limit) : List Char := limit.kind.text ++ Decimal.digits limit.amount

end Limit

namespace Order

def text : Order → List Char
  | unsorted => []
  | ascending => ['s']
  | descending => ['s', 'd']

end Order

namespace Tail

/-- Limit, success and failure. The sign of a success test keeps it apart from the amount before it. -/
def selectionText (tail : Tail) : List Char :=
  (match tail.limit with
    | some limit => limit.text
    | none => []) ++
  (match tail.success with
    | some test => test.text
    | none => []) ++
  (match tail.failure with
    | some test => 'f' :: test.announcedText
    | none => [])

def modifierText (tail : Tail) : List Char :=
  if tail.modifier = .zero then [] else tail.modifier.signedText

end Tail

namespace Single

def multiplierText (multiplier : Whole) : List Char :=
  if multiplier = .one then []
  else if multiplier = .minusOne then ['-']
  else multiplier.text

def canonical (roll : Single) : List Char :=
  multiplierText roll.multiplier ++ roll.die.name ++ roll.rerolls.flatMap Reroll.text ++
    (match roll.exploding with
      | some explosion => explosion.text
      | none => []) ++
    roll.tail.selectionText ++ roll.order.text ++ roll.tail.modifierText

end Single

namespace Roll

/-- What stands before a later member: a comma, or a plus unless the member brings its own minus. -/
def joint (combined : Bool) (member : Roll) : List Char :=
  if combined then (if member.isNegative then [] else ['+']) else [',']

mutual

def canonical : Roll → List Char
  | single roll =>
    roll.canonical
  | group first others tail combined negative =>
    (if negative then ['-'] else []) ++ '\x7b' :: first.canonical ++ canonicalOthers combined others ++
      '\x7d' :: tail.selectionText ++ tail.modifierText

def canonicalOthers (combined : Bool) : List Roll → List Char
  | [] =>
    []
  | member :: others =>
    joint combined member ++ member.canonical ++ canonicalOthers combined others

end

end Roll

end Tabletop
