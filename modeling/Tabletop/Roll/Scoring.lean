import Tabletop.Roll.Basic

/-!
# From faces to a score

Once the dice lie on the table, a limit selects among the faces, an order arranges them, and what is left is either
summed up or tested face by face. Sums are exact at every step.
-/

namespace Tabletop

set_option autoImplicit false

namespace Limit

def favoursHighest (limit : Limit) : Bool :=
  match limit.kind with
  | .keepHighest => true
  | .keepLowest => false
  | .dropHighest => false
  | .dropLowest => true

def kept (limit : Limit) (count : Nat) : Nat :=
  match limit.kind with
  | .keepHighest => limit.amount
  | .keepLowest => limit.amount
  | .dropHighest => count - limit.amount
  | .dropLowest => count - limit.amount

/-- Faces with their places, a better value first and the earlier of two equal ones. -/
def ahead (limit : Limit) (a b : Face × Nat) : Bool :=
  let left := a.1.value.val
  let right := b.1.value.val
  if left = right then a.2 ≤ b.2
  else if limit.favoursHighest then right < left
  else left < right

/-- The surviving faces in their old order. A limit of as many faces as there are, or more, changes nothing. -/
def apply (limit : Limit) (faces : List Face) : List Face :=
  if faces.length ≤ limit.amount then faces
  else
    let best := (faces.zipIdx.mergeSort limit.ahead).take (limit.kept faces.length)
    (best.mergeSort fun a b => a.2 ≤ b.2).map Prod.fst

end Limit

namespace Order

def apply (order : Order) (faces : List Face) : List Face :=
  match order with
  | unsorted => faces
  | ascending => faces.mergeSort fun a b => a.value.val ≤ b.value.val
  | descending => faces.mergeSort fun a b => b.value.val ≤ a.value.val

end Order

namespace Tail

def limited (tail : Tail) (faces : List Face) : List Face :=
  match tail.limit with
  | some limit => limit.apply faces
  | none => faces

/-- The number of faces whose value with the modifier passes the test; a missing test passes none. -/
def passing? (modifier : Whole) (test : Option Test) (faces : List Face) : Option Whole :=
  match test with
  | none =>
    some .zero
  | some test =>
    faces.foldlM (fun passed face => do
      let shifted ← face.value.add? modifier
      if test.accepts shifted then passed.add? .one else some passed) Whole.zero

def tally? (tail : Tail) (faces : List Face) : Option Whole := do
  let successes ← passing? tail.modifier tail.success faces
  let failures ← passing? tail.modifier tail.failure faces
  successes.sub? failures

def total? (tail : Tail) (negative : Bool) (faces : List Face) : Option Whole := do
  let sum ← faces.foldlM (fun sum face => sum.add? face.value) Whole.zero
  let shifted ← sum.add? tail.modifier
  if negative then shifted.neg? else some shifted

end Tail

end Tabletop
