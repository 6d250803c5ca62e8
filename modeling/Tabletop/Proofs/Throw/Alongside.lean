import Tabletop.Proofs.Throw.Yields

/-!
# Two throws side by side

Two throws may ask for the same dice in the same order and yet note and compute different things. As long as neither
overflows or gives up, their runs leave the same session behind, and their values stand in a relation.
-/

namespace Tabletop

set_option autoImplicit false

namespace Throw

variable {α β γ δ : Type}

/-- Both throws ask for the same dice, and where both come to values, these are related. -/
inductive Alongside (related : α → β → Prop) : Throw α → Throw β → Prop where
  | done {value : α} {value' : β} (both : related value value') : Alongside related (done value) (done value')
  | overflow (other : Throw β) : Alongside related overflow other
  | otherOverflow (throw : Throw α) : Alongside related throw overflow
  | endless (other : Throw β) : Alongside related endless other
  | otherEndless (throw : Throw α) : Alongside related throw endless
  | one {die : Die} {next : Whole → Throw α} {next' : Whole → Throw β}
      (each : ∀ value, Alongside related (next value) (next' value)) : Alongside related (one die next) (one die next')
  | many {die : Die} {count : Nat} {next : List Whole → Throw α} {next' : List Whole → Throw β}
      (each : ∀ values, Alongside related (next values) (next' values)) :
      Alongside related (many die count next) (many die count next')
  | note {roll : Roll} {result : Result} {next : Throw α} {other : Throw β} (rest : Alongside related next other) :
      Alongside related (note roll result next) other
  | otherNote {roll : Roll} {result : Result} {throw : Throw α} {next : Throw β}
      (rest : Alongside related throw next) : Alongside related throw (note roll result next)

variable {related : α → β → Prop} {throw : Throw α} {other : Throw β}

theorem alongside_refl (throw : Throw α) : Alongside (· = ·) throw throw := by
  induction throw with
  | done value => exact .done rfl
  | overflow => exact .overflow _
  | endless => exact .endless _
  | one die next ih => exact .one ih
  | many die count next ih => exact .many ih
  | note roll result next ih => exact .note (.otherNote ih)

theorem alongside_bind {behind : γ → δ → Prop} {f : α → Throw γ} {f' : β → Throw δ}
    (before : Alongside related throw other)
    (after : ∀ value value', related value value' → Alongside behind (f value) (f' value')) :
    Alongside behind (throw >>= f) (other >>= f') := by
  induction before with
  | done both => exact after _ _ both
  | overflow other => exact .overflow _
  | otherOverflow throw => exact .otherOverflow _
  | endless other => exact .endless _
  | otherEndless throw => exact .otherEndless _
  | one each ih => exact .one ih
  | many each ih => exact .many ih
  | note rest ih => exact .note ih
  | otherNote rest ih => exact .otherNote ih

theorem alongside_mono {weaker : α → β → Prop} (before : Alongside related throw other)
    (weaken : ∀ value value', related value value' → weaker value value') : Alongside weaker throw other := by
  have both : Alongside weaker (throw.bind done) (other.bind done) :=
    alongside_bind before fun value value' holds => .done (weaken value value' holds)
  rwa [bind_done, bind_done] at both

theorem alongside_yields {noted : Roll → Result → Prop} {property : α → Prop} (both : Alongside related throw other)
    (yields : throw.Yields noted property) :
    Alongside (fun value value' => related value value' ∧ property value) throw other := by
  induction both with
  | done both => exact .done ⟨both, yields⟩
  | overflow other => exact .overflow _
  | otherOverflow throw => exact .otherOverflow _
  | endless other => exact .endless _
  | otherEndless throw => exact .otherEndless _
  | one each ih => exact .one fun value => ih value (yields value)
  | many each ih => exact .many fun values => ih values (yields values)
  | note rest ih => exact .note (ih yields.2)
  | otherNote rest ih => exact .otherNote (ih yields)

theorem alongside_checked {value : Option α} {value' : Option β}
    (both : ∀ result result', value = some result → value' = some result' → related result result') :
    Alongside related (checked value) (checked value') := by
  cases value with
  | none => exact .overflow _
  | some result =>
      cases value' with
      | none => exact .otherOverflow _
      | some result' => exact .done (both result result' rfl rfl)

theorem alongside_complete {related : Result → Result → Prop} (roll roll' : Roll) {value value' : Option Result}
    (both : ∀ result result', value = some result → value' = some result' → related result result') :
    Alongside related (complete roll value) (complete roll' value') := by
  cases value with
  | none => exact .overflow _
  | some result =>
      cases value' with
      | none => exact .otherOverflow _
      | some result' => exact .note (.otherNote (.done (both result result' rfl rfl)))

end Throw

namespace Session

variable {σ α β : Type} {roller : Roller σ} {related : α → β → Prop}

/-- Where both runs come to values, these are related, and the same session is left. -/
theorem carry_out_alongside {throw : Throw α} {other : Throw β} (both : Throw.Alongside related throw other)
    (session : Session σ) (past past' : List Event) {value : α} {value' : β}
    (done : (carryOut roller throw session past).outcome = .ok value)
    (done' : (carryOut roller other session past').outcome = .ok value') :
    related value value' ∧
      (carryOut roller other session past').session = (carryOut roller throw session past).session := by
  induction both generalizing session past past' with
  | done both =>
      cases done
      cases done'
      exact ⟨both, rfl⟩
  | overflow other => cases done
  | otherOverflow throw => cases done'
  | endless other => cases done
  | otherEndless throw => cases done'
  | one each ih =>
      cases answer : (session.ask 1).exceeded? with
      | some limit =>
          rw [one_refused answer] at done
          cases done
      | none =>
          rw [one_granted answer] at done done' ⊢
          rw [one_granted answer]
          exact ih _ _ _ _ done done'
  | @many die count next next' each ih =>
      cases answer : (session.ask count).exceeded? with
      | some limit =>
          rw [many_refused answer] at done
          cases done
      | none =>
          rw [many_granted answer] at done done' ⊢
          rw [many_granted answer]
          exact ih _ _ _ _ done done'
  | note rest ih => exact ih session _ _ done done'
  | otherNote rest ih => exact ih session _ _ done done'

end Session

end Tabletop
