import Mathlib.Algebra.Ring.Int.Defs
import Tabletop.Notation.Token

/-!
# The grammar of the notation

Which runs of tokens are a roll, and which roll they are. A roll is dice with their suffixes or a group in braces; the
members of a group stand between commas, or all of them are joined by signs. Rerolls of one roll add up in order, of
every other suffix the last one counts, and modifiers are summed. Spans say nothing here.
-/

namespace Tabletop

set_option autoImplicit false

def Whole.InRange (n : Int) : Prop := -2147483648 ≤ n ∧ n ≤ 2147483647

instance (n : Int) : Decidable (Whole.InRange n) := inferInstanceAs (Decidable (_ ∧ _))

namespace Notation

def signKind (negative : Bool) : Kind := if negative then .minus else .plus

def signed (negative : Bool) (n : Int) : Int := if negative then -n else n

def unit (negative : Bool) : Whole := if negative then .minusOne else .one

/-- Numbers reach up to the largest whole number. -/
structure IsNumber (token : Token) (value : Whole) : Prop where
  kind : token.kind = .number
  value : value.val = Decimal.value token.text

/-- What follows the letter of a die: digits of a positive number of sides, or one letter. -/
inductive DieCode : List Char → Die → Prop where
  | sides {code : List Char} {sides : Sides} (written : code ≠ []) (digits : code.all Char.isDigit)
      (value : sides.count = Decimal.value code) (small : sides.count ≤ 2147483647) : DieCode code (.standard sides)
  | fate : DieCode ['f'] .fate
  | fateCapital : DieCode ['F'] .fate

structure IsDie (token : Token) (die : Die) : Prop where
  kind : token.kind = .die
  code : DieCode (token.text.drop 1) die

/-- Limits have amounts of 64 bits, and the amount 1 where none is written. -/
structure IsLimit (token : Token) (limit : Limit) : Prop where
  kind : token.kind = .limit limit.kind
  amount : limit.amount = if token.text.drop 2 = [] then 1 else Decimal.value (token.text.drop 2)

inductive Suffix where
  | reroll (reroll : Reroll)
  | explosion (explosion : Explosion)
  | order (order : Order)
  | limit (limit : Limit)
  | success (test : Test)
  | failure (test : Test)
  | modifier (value : Whole)

/-- A test behind an announcing token, where a bare number stands for equality. -/
inductive Announced : List Token → Test → Prop where
  | bare {number : Token} {threshold : Whole} (isNumber : IsNumber number threshold) :
      Announced [number] ⟨.equal, threshold⟩
  | related {sign number : Token} {relation : Relation} {threshold : Whole} (kind : sign.kind = .compare relation)
      (isNumber : IsNumber number threshold) : Announced [sign, number] ⟨relation, threshold⟩

inductive GroupSuffix : List Token → Suffix → Prop where
  | limit {token : Token} {limit : Limit} (isLimit : IsLimit token limit) : GroupSuffix [token] (.limit limit)
  | success {sign number : Token} {relation : Relation} {threshold : Whole} (kind : sign.kind = .compare relation)
      (isNumber : IsNumber number threshold) : GroupSuffix [sign, number] (.success ⟨relation, threshold⟩)
  | failure {letter : Token} {tokens : List Token} {test : Test} (kind : letter.kind = .failure)
      (announced : Announced tokens test) : GroupSuffix (letter :: tokens) (.failure test)
  | modifier {sign number : Token} {negative : Bool} {size value : Whole} (kind : sign.kind = signKind negative)
      (isNumber : IsNumber number size) (value_eq : value.val = signed negative size.val) :
      GroupSuffix [sign, number] (.modifier value)

inductive DiceSuffix : List Token → Suffix → Prop where
  | reroll {letter : Token} {tokens : List Token} {once : Bool} {test : Test} (kind : letter.kind = .reroll once)
      (announced : Announced tokens test) : DiceSuffix (letter :: tokens) (.reroll ⟨test, once⟩)
  | explosion {mark : Token} {tokens : List Token} {explosion : Explosion} (kind : mark.kind = .explode explosion.kind)
      (announced : Announced tokens explosion.test) : DiceSuffix (mark :: tokens) (.explosion explosion)
  | order {letter : Token} {order : Order} (kind : letter.kind = .sort order) : DiceSuffix [letter] (.order order)
  | general {tokens : List Token} {suffix : Suffix} (shared : GroupSuffix tokens suffix) : DiceSuffix tokens suffix

inductive Suffixes (Item : List Token → Suffix → Prop) : List Token → List Suffix → Prop where
  | nil : Suffixes Item [] []
  | cons {tokens rest : List Token} {suffix : Suffix} {suffixes : List Suffix} (first : Item tokens suffix)
      (others : Suffixes Item rest suffixes) : Suffixes Item (tokens ++ rest) (suffix :: suffixes)

namespace Suffix

def reroll? : Suffix → Option Reroll
  | reroll value => some value
  | _ => none

def explosion? : Suffix → Option Explosion
  | explosion value => some value
  | _ => none

def order? : Suffix → Option Order
  | order value => some value
  | _ => none

def limit? : Suffix → Option Limit
  | limit value => some value
  | _ => none

def success? : Suffix → Option Test
  | success value => some value
  | _ => none

def failure? : Suffix → Option Test
  | failure value => some value
  | _ => none

def modifier? : Suffix → Option Int
  | modifier value => some value.val
  | _ => none

def last? {α : Type} (value? : Suffix → Option α) (suffixes : List Suffix) : Option α :=
  (suffixes.filterMap value?).getLast?

end Suffix

/-- Every sum on the way from the start through the addends is a whole number. -/
def Running (start : Int) (addends : List Int) : Prop := ∀ part, part <+: addends → Whole.InRange (start + part.sum)

structure TailOf (suffixes : List Suffix) (tail : Tail) : Prop where
  running : Running 0 (suffixes.filterMap Suffix.modifier?)
  modifier : tail.modifier.val = (suffixes.filterMap Suffix.modifier?).sum
  limit : tail.limit = Suffix.last? Suffix.limit? suffixes
  success : tail.success = Suffix.last? Suffix.success? suffixes
  failure : tail.failure = Suffix.last? Suffix.failure? suffixes

structure SingleOf (multiplier : Whole) (die : Die) (suffixes : List Suffix) (single : Single) : Prop where
  multiplier : single.multiplier = multiplier
  die : single.die = die
  rerolls : single.rerolls = suffixes.filterMap Suffix.reroll?
  exploding : single.exploding = Suffix.last? Suffix.explosion? suffixes
  order : single.order = (Suffix.last? Suffix.order? suffixes).getD .unsorted
  tail : TailOf suffixes single.tail

inductive DiceOf (multiplier : Whole) : List Token → Single → Prop where
  | intro {token : Token} {tokens : List Token} {die : Die} {suffixes : List Suffix} {single : Single}
      (isDie : IsDie token die) (spelled : Suffixes DiceSuffix tokens suffixes)
      (value : SingleOf multiplier die suffixes single) : DiceOf multiplier (token :: tokens) single

/-- What a run of tokens can be, with its value. -/
inductive Phrase where
  | roll (roll : Roll)
  /-- A group in braces with its suffixes, under a sign that stands before it. -/
  | braced (negative : Bool) (group : Roll)
  /-- Any number of members, each behind a comma. -/
  | commas (members : List Roll)
  /-- Any number of members, each behind a sign, that follow a member. -/
  | signs (previous : Roll) (members : List Roll)

/-- The derivations of the grammar. -/
inductive Derives : Phrase → List Token → Prop where
  | dice {tokens : List Token} {single : Single} (dice : DiceOf .one tokens single) :
      Derives (.roll (.single single)) tokens
  | countedDice {number : Token} {tokens : List Token} {multiplier : Whole} {single : Single}
      (isNumber : IsNumber number multiplier) (dice : DiceOf multiplier tokens single) :
      Derives (.roll (.single single)) (number :: tokens)
  | group {tokens : List Token} {group : Roll} (braced : Derives (.braced false group) tokens) :
      Derives (.roll group) tokens
  /-- A group of one member is joined by signs too. -/
  | joined {opening closing : Token} {inner rest after : List Token} {first : Roll} {others : List Roll}
      {suffixes : List Suffix} {tail : Tail} {negative : Bool} (opens : opening.kind = .opening)
      (member : Derives (.roll first) inner) (members : Derives (.signs first others) rest)
      (closes : closing.kind = .closing) (spelled : Suffixes GroupSuffix after suffixes)
      (value : TailOf suffixes tail) :
      Derives (.braced negative (.group first others tail true negative))
        (opening :: (inner ++ rest ++ closing :: after))
  | listed {opening closing : Token} {inner rest after : List Token} {first second : Roll} {others : List Roll}
      {suffixes : List Suffix} {tail : Tail} {negative : Bool} (opens : opening.kind = .opening)
      (member : Derives (.roll first) inner) (members : Derives (.commas (second :: others)) rest)
      (closes : closing.kind = .closing) (spelled : Suffixes GroupSuffix after suffixes)
      (value : TailOf suffixes tail) :
      Derives (.braced negative (.group first (second :: others) tail false negative))
        (opening :: (inner ++ rest ++ closing :: after))
  | commasNil : Derives (.commas []) []
  | comma {comma : Token} {inner rest : List Token} {member : Roll} {others : List Roll} (kind : comma.kind = .comma)
      (derived : Derives (.roll member) inner) (members : Derives (.commas others) rest) :
      Derives (.commas (member :: others)) (comma :: (inner ++ rest))
  | signsNil {previous : Roll} : Derives (.signs previous []) []
  | signDice {sign : Token} {inner rest : List Token} {negative : Bool} {previous : Roll} {single : Single}
      {others : List Roll} (kind : sign.kind = signKind negative) (dice : DiceOf (unit negative) inner single)
      (members : Derives (.signs (.single single) others) rest) :
      Derives (.signs previous (.single single :: others)) (sign :: (inner ++ rest))
  /-- The multiplier counts for a moment as one more modifier of the member before it, and has to fit there. -/
  | signCountedDice {sign number : Token} {inner rest : List Token} {negative : Bool} {size multiplier : Whole}
      {previous : Roll} {single : Single} {others : List Roll} (kind : sign.kind = signKind negative)
      (isNumber : IsNumber number size) (value : multiplier.val = signed negative size.val)
      (fits : Whole.InRange (previous.tail.modifier.val + multiplier.val)) (dice : DiceOf multiplier inner single)
      (members : Derives (.signs (.single single) others) rest) :
      Derives (.signs previous (.single single :: others)) (sign :: number :: (inner ++ rest))
  | signGroup {sign : Token} {inner rest : List Token} {negative : Bool} {previous group : Roll} {others : List Roll}
      (kind : sign.kind = signKind negative) (braced : Derives (.braced negative group) inner)
      (members : Derives (.signs group others) rest) :
      Derives (.signs previous (group :: others)) (sign :: (inner ++ rest))

end Notation

end Tabletop
