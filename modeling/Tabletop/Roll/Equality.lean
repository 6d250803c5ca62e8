import Tabletop.Roll.Basic

/-!
# Equality of rolls

Two rolls are compared node by node, members in order.
-/

namespace Tabletop.Roll

set_option autoImplicit false

mutual

def decEq : (left right : Roll) → Decidable (left = right)
  | single left, single right =>
    if same : left = right then isTrue (by rw [same]) else isFalse (by simp [same])
  | single _, group .. =>
    isFalse (by simp)
  | group .., single _ =>
    isFalse (by simp)
  | group first others tail combined negative, group first' others' tail' combined' negative' =>
    match decEq first first', decEqAll others others' with
    | isTrue sameFirst, isTrue sameOthers =>
      if same : tail = tail' ∧ combined = combined' ∧ negative = negative' then
        isTrue (by rw [sameFirst, sameOthers, same.1, same.2.1, same.2.2])
      else
        isFalse (by simpa [sameFirst, sameOthers] using same)
    | isFalse differ, _ =>
      isFalse (by simp [differ])
    | _, isFalse differ =>
      isFalse (by simp [differ])

def decEqAll : (left right : List Roll) → Decidable (left = right)
  | [], [] =>
    isTrue rfl
  | [], _ :: _ =>
    isFalse (by simp)
  | _ :: _, [] =>
    isFalse (by simp)
  | left :: lefts, right :: rights =>
    match decEq left right, decEqAll lefts rights with
    | isTrue same, isTrue sameRest =>
      isTrue (by rw [same, sameRest])
    | isFalse differ, _ =>
      isFalse (by simp [differ])
    | _, isFalse differ =>
      isFalse (by simp [differ])

end

instance : DecidableEq Roll := decEq

end Tabletop.Roll
