import Tabletop.Proofs.Throw.Congruence

/-!
# More patience

Patience bounds every loop of a throw by itself. A throw made with more patience does the same and goes on where the
other one gives up, and a throw only gives up after as many dice as it has patience for.
-/

namespace Tabletop

set_option autoImplicit false

namespace Throw

variable {α β : Type}

/-- The second throw goes on where the first one is endless, and is the same everywhere else. -/
inductive Extends : Throw α → Throw α → Prop where
  | done (value : α) : Extends (done value) (done value)
  | overflow : Extends overflow overflow
  | endless (throw : Throw α) : Extends endless throw
  | one {die : Die} {next next' : Whole → Throw α} (each : ∀ value, Extends (next value) (next' value)) :
      Extends (one die next) (one die next')
  | many {die : Die} {count : Nat} {next next' : List Whole → Throw α}
      (each : ∀ values, Extends (next values) (next' values)) : Extends (many die count next) (many die count next')
  | note {roll : Roll} {result : Result} {next next' : Throw α} (rest : Extends next next') :
      Extends (note roll result next) (note roll result next')

/-- The throw is endless only after so many dice. -/
def Lasts : Nat → Throw α → Prop
  | _, done _ => True
  | _, overflow => True
  | patience, endless => patience = 0
  | patience, one _ next => ∀ value, Lasts (patience - 1) (next value)
  | patience, many _ count next => ∀ values, Lasts (patience - count) (next values)
  | patience, note _ _ next => Lasts patience next

theorem extends_bind {throw throw' : Throw α} {f f' : α → Throw β} (before : Extends throw throw')
    (after : ∀ value, Extends (f value) (f' value)) : Extends (throw >>= f) (throw' >>= f') := by
  induction before with
  | done value => exact after value
  | overflow => exact .overflow
  | endless throw => exact .endless _
  | one each ih => exact .one ih
  | many each ih => exact .many ih
  | note rest ih => exact .note ih

theorem lasts_of_le {patience less : Nat} {throw : Throw α} (lasts : Lasts patience throw) (le : less ≤ patience) :
    Lasts less throw := by
  induction throw generalizing patience less with
  | done value => trivial
  | overflow => trivial
  | endless =>
      have none : patience = 0 := lasts
      exact Nat.le_zero.mp (none ▸ le)
  | one die next ih =>
      intro value
      exact ih value (lasts value) (Nat.sub_le_sub_right le 1)
  | many die count next ih =>
      intro values
      exact ih values (lasts values) (Nat.sub_le_sub_right le count)
  | note roll result next ih => exact ih lasts le

theorem lasts_bind {patience : Nat} {throw : Throw α} {f : α → Throw β} (before : Lasts patience throw)
    (after : ∀ value, Lasts patience (f value)) : Lasts patience (throw >>= f) := by
  induction throw generalizing patience with
  | done value => exact after value
  | overflow => trivial
  | endless => exact before
  | one die next ih =>
      intro value
      exact ih value (before value) fun result => lasts_of_le (after result) (Nat.sub_le _ _)
  | many die count next ih =>
      intro values
      exact ih values (before values) fun result => lasts_of_le (after result) (Nat.sub_le _ _)
  | note roll result next ih => exact ih before after

theorem extends_congruence : Congruence fun _ => Extends where
  done := .done
  overflow := .overflow
  one := .one
  many := .many
  note := .note
  bind := extends_bind

theorem lasts_congruence (patience : Nat) : Congruence fun _ throw _ => Lasts patience throw where
  done _ := trivial
  overflow := trivial
  one each value := lasts_of_le (each value) (Nat.sub_le _ _)
  many each values := lasts_of_le (each values) (Nat.sub_le _ _)
  note rest := rest
  bind := lasts_bind

theorem until_refused_extends (die : Die) (test : Test) {patience more : Nat} (le : patience ≤ more) :
    Extends (untilRefused die test patience) (untilRefused die test more) := by
  induction patience generalizing more with
  | zero => exact .endless _
  | succ patience ih =>
      cases more with
      | zero => omega
      | succ more =>
          apply Extends.one
          intro value
          split
          · exact ih (Nat.le_of_succ_le_succ le)
          · exact .done _

theorem until_refused_lasts (die : Die) (test : Test) (patience : Nat) :
    Lasts patience (untilRefused die test patience) := by
  induction patience with
  | zero => rfl
  | succ patience ih =>
      intro value
      dsimp only
      split
      · exact ih
      · trivial

theorem chain_none (die : Die) (explosion : Explosion) (patience : Nat) (added : List Face) :
    explosion.chain die patience 0 added = .done added.reverse := by
  cases patience <;> rfl

theorem chain_extends (die : Die) (explosion : Explosion) {patience more : Nat} (le : patience ≤ more) (owed : Nat)
    (added : List Face) :
    Extends (explosion.chain die patience owed added) (explosion.chain die more owed added) := by
  induction patience generalizing more owed added with
  | zero =>
      cases owed with
      | zero =>
          rw [chain_none, chain_none]
          exact .done _
      | succ owed => exact .endless _
  | succ patience ih =>
      cases owed with
      | zero =>
          rw [chain_none, chain_none]
          exact .done _
      | succ owed =>
          cases more with
          | zero => omega
          | succ more =>
              apply Extends.one
              intro value
              split
              · exact .overflow
              · exact ih (Nat.le_of_succ_le_succ le) _ _

theorem chain_lasts (die : Die) (explosion : Explosion) (patience owed : Nat) (added : List Face) :
    Lasts patience (explosion.chain die patience owed added) := by
  induction patience generalizing owed added with
  | zero =>
      cases owed with
      | zero => trivial
      | succ owed => rfl
  | succ patience ih =>
      cases owed with
      | zero => trivial
      | succ owed =>
          intro value
          dsimp only
          split
          · trivial
          · exact ih _ _

theorem compound_extends (die : Die) (test : Test) {patience more : Nat} (le : patience ≤ more) (sum : Whole) :
    Extends (Explosion.compound die test patience sum) (Explosion.compound die test more sum) := by
  induction patience generalizing more sum with
  | zero => exact .endless _
  | succ patience ih =>
      cases more with
      | zero => omega
      | succ more =>
          apply Extends.one
          intro value
          split
          · exact .overflow
          · split
            · exact ih (Nat.le_of_succ_le_succ le) _
            · exact .done _

theorem compound_lasts (die : Die) (test : Test) (patience : Nat) (sum : Whole) :
    Lasts patience (Explosion.compound die test patience sum) := by
  induction patience generalizing sum with
  | zero => rfl
  | succ patience ih =>
      intro value
      dsimp only
      split
      · trivial
      · split
        · exact ih _
        · trivial

/-- With more patience a roll is thrown as with less, as far as that goes. -/
theorem throw_extends (roll : Roll) {patience more : Nat} (le : patience ≤ more) :
    Extends (roll.throw patience) (roll.throw more) := by
  have loops : Loops (fun _ => Extends) patience more := by
    constructor
    · exact fun die test => until_refused_extends die test le
    · exact fun die explosion => chain_extends die explosion le
    · exact fun die test => compound_extends die test le .zero
  exact throw_related extends_congruence loops roll

/-- The throw of a roll gives up only after as many dice as it has patience for. -/
theorem throw_lasts (roll : Roll) (patience : Nat) : Lasts patience (roll.throw patience) := by
  have loops : Loops (fun _ throw _ => Lasts patience throw) patience patience := by
    constructor
    · exact fun die test => until_refused_lasts die test patience
    · exact fun die explosion => chain_lasts die explosion patience
    · exact fun die test => compound_lasts die test patience .zero
  exact throw_related (lasts_congruence patience) loops roll

end Throw

end Tabletop
