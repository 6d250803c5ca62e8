import Tabletop.Roll.Basic

/-!
# Throws

A throw says which dice are thrown next and how to go on with what they show, until it has a result. It knows neither
budget nor source, so it can be carried out on any of them. A throw can overflow, and it is endless where it has used
up the patience it was made with.
-/

namespace Tabletop

set_option autoImplicit false

/-- The faces of a roll, their worth, and the successes counted among them. -/
structure Result where
  faces : List Face
  total : Whole
  successes : Whole
deriving DecidableEq

inductive Throw (α : Type) where
  | done (value : α)
  | overflow
  | endless
  | one (die : Die) (next : Whole → Throw α)
  | many (die : Die) (count : Nat) (next : List Whole → Throw α)
  /-- The roll was completed with the result, on the way to something larger. -/
  | note (roll : Roll) (result : Result) (next : Throw α)

namespace Throw

variable {α β γ : Type}

def bind (throw : Throw α) (f : α → Throw β) : Throw β :=
  match throw with
  | done value => f value
  | overflow => overflow
  | endless => endless
  | one die next => one die fun value => (next value).bind f
  | many die count next => many die count fun values => (next values).bind f
  | note roll result next => note roll result (next.bind f)

theorem bind_done (throw : Throw α) : throw.bind done = throw := by
  induction throw with
  | done value => rfl
  | overflow => rfl
  | endless => rfl
  | one die next ih => exact congrArg (one die) (funext ih)
  | many die count next ih => exact congrArg (many die count) (funext ih)
  | note roll result next ih => exact congrArg (note roll result) ih

theorem bind_assoc (throw : Throw α) (f : α → Throw β) (g : β → Throw γ) :
    (throw.bind f).bind g = throw.bind fun value => (f value).bind g := by
  induction throw with
  | done value => rfl
  | overflow => rfl
  | endless => rfl
  | one die next ih => exact congrArg (one die) (funext ih)
  | many die count next ih => exact congrArg (many die count) (funext ih)
  | note roll result next ih => exact congrArg (note roll result) ih

instance : Monad Throw where
  pure := done
  bind := bind

instance : LawfulMonad Throw :=
  LawfulMonad.mk' Throw bind_done (fun _ _ => rfl) bind_assoc

/-- Exact arithmetic inside a throw: what has no result overflows. -/
def checked : Option α → Throw α
  | some value => done value
  | none => overflow

end Throw

end Tabletop
