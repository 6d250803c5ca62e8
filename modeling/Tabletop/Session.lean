import Tabletop.Roll.Equality
import Tabletop.Roller.Basic
import Tabletop.Throw.Evaluation

/-!
# Sessions

A session holds a source of faces, counts the throws asked of it and may have a budget. Throws are counted before they
are made, those refused as well; past the budget nothing is thrown any more. The counter stops at the largest number of
64 bits. Carrying out a throw leaves a record of what happened, in order.
-/

namespace Tabletop

set_option autoImplicit false

inductive Mishap where
  | tooManyRolls (limit : Nat)
  | overflow
  /-- The patience was used up: as far as can be told, the throw never ends. -/
  | endless
deriving DecidableEq

inductive Event where
  /-- The number is the one in the range of the die, before the die shows it as a value. -/
  | threw (die : Die) (number : Nat)
  | rolled (roll : Roll) (result : Result)
  | exhausted (limit : Nat)
deriving DecidableEq

structure Session (σ : Type) where
  budget : Option Nat
  asked : Nat
  source : σ

structure Run (σ ε α : Type) where
  outcome : Except ε α
  session : Session σ
  events : List Event

namespace Run

variable {σ ε ζ α β : Type}

def map (f : α → β) (run : Run σ ε α) : Run σ ε β := ⟨run.outcome.map f, run.session, run.events⟩

def mapError (f : ε → ζ) (run : Run σ ε α) : Run σ ζ α := ⟨run.outcome.mapError f, run.session, run.events⟩

end Run

namespace Mishap

/-- What never ends has nothing to say. -/
def message : Mishap → List Char
  | tooManyRolls limit =>
    "too many dice rolled (limit is ".toList ++ Decimal.digits limit ++ [')']
  | overflow =>
    "roll total overflowed".toList
  | endless =>
    []

end Mishap

namespace Session

variable {σ α : Type}

def usualBudget : Nat := 1000

def start (budget : Option Nat) (source : σ) : Session σ := ⟨budget, 0, source⟩

def reset (session : Session σ) : Session σ := { session with asked := 0 }

def renew (budget : Option Nat) (session : Session σ) : Session σ := start budget session.source

def ask (count : Nat) (session : Session σ) : Session σ :=
  { session with asked := min (session.asked + count) 18446744073709551615 }

/-- The budget, if more has been asked for than it allows. -/
def exceeded? (session : Session σ) : Option Nat :=
  match session.budget with
  | some limit => if limit < session.asked then some limit else none
  | none => none

/-- How many throws a single loop may ask for. One more than the budget is as good as any number; without a budget it is
one more than the counter can tell. -/
def patience (session : Session σ) : Nat := session.budget.getD 18446744073709551615 + 1

/-- Carries out a throw; the events before it are given latest first. -/
def carryOut (roller : Roller σ) : Throw α → Session σ → List Event → Run σ Mishap α
  | .done value, session, past =>
    ⟨.ok value, session, past.reverse⟩
  | .overflow, session, past =>
    ⟨.error .overflow, session, past.reverse⟩
  | .endless, session, past =>
    ⟨.error .endless, session, past.reverse⟩
  | .one die next, session, past =>
    let session := session.ask 1
    match session.exceeded? with
    | some limit =>
      ⟨.error (.tooManyRolls limit), session, (.exhausted limit :: past).reverse⟩
    | none =>
      let thrown := roller.throwOne die session.source
      carryOut roller (next (die.shown thrown.1)) { session with source := thrown.2 } (.threw die thrown.1 :: past)
  | .many die count next, session, past =>
    let session := session.ask count
    match session.exceeded? with
    | some limit =>
      ⟨.error (.tooManyRolls limit), session, (.exhausted limit :: past).reverse⟩
    | none =>
      let thrown := roller.throwMany die count session.source
      carryOut roller (next (thrown.1.map die.shown)) { session with source := thrown.2 }
        (thrown.1.reverse.map (.threw die) ++ past)
  | .note roll result next, session, past =>
    carryOut roller next session (.rolled roll result :: past)

def throwDie (roller : Roller σ) (die : Die) (session : Session σ) : Run σ Mishap Face :=
  carryOut roller (.one die fun value => .done (die.face value)) session []

def throwDice (roller : Roller σ) (die : Die) (count : Nat) (session : Session σ) : Run σ Mishap (List Face) :=
  carryOut roller (.many die count fun values => .done (values.map die.face)) session []

def evaluate (roller : Roller σ) (roll : Roll) (session : Session σ) : Run σ Mishap Result :=
  carryOut roller (roll.throw session.patience) session []

end Session

end Tabletop
