import Tabletop.Proofs.Roll.Arrangement
import Tabletop.Proofs.Throw.Range

/-!
# What a throw gives

A throw may overflow or go on for ever, but if it comes to a value, that value comes from numbers which the dice can
show. A standard die shows no number below 1, so no face that it throws is negative: not when it is redrawn, not when a
penetrating die takes one off, and not when throws are compounded.
-/

namespace Tabletop

set_option autoImplicit false

namespace Throw

variable {α β : Type}

/-- Whatever the dice can show, a value that the throw comes to has the property. -/
def Gives (property : α → Prop) : Throw α → Prop
  | done value => property value
  | overflow => True
  | endless => True
  | one die next => ∀ value, die.CanShow value → (next value).Gives property
  | many die count next =>
    ∀ values : List Whole, values.length = count → (∀ value ∈ values, die.CanShow value) →
      (next values).Gives property
  | note _ _ next => next.Gives property

theorem gives_bind {first : α → Prop} {second : β → Prop} {throw : Throw α} {f : α → Throw β}
    (before : throw.Gives first) (after : ∀ value, first value → (f value).Gives second) :
    (throw >>= f).Gives second := by
  induction throw with
  | done value => exact after value before
  | overflow => trivial
  | endless => trivial
  | one die next ih => exact fun value can => ih value (before value can)
  | many die count next ih => exact fun values length can => ih values (before values length can)
  | note roll result next ih => exact ih before

theorem gives_mono {property weaker : α → Prop} {throw : Throw α} (gives : throw.Gives property)
    (follows : ∀ value, property value → weaker value) : throw.Gives weaker := by
  rw [← bind_pure throw]
  exact gives_bind gives follows

theorem gives_map {property : β → Prop} {f : α → Throw β} {values : List α}
    (each : ∀ value ∈ values, (f value).Gives property) :
    (values.mapM f).Gives fun results =>
      results.length = values.length ∧ ∀ result ∈ results, property result := by
  induction values with
  | nil => exact ⟨rfl, List.forall_mem_nil _⟩
  | cons value values ih =>
      obtain ⟨first, others⟩ := List.forall_mem_cons.mp each
      rw [List.mapM_cons]
      apply gives_bind first
      intro result ofFirst
      apply gives_bind (ih others)
      intro results ofOthers
      exact ⟨congrArg (· + 1) ofOthers.1, List.forall_mem_cons.mpr ⟨ofFirst, ofOthers.2⟩⟩

theorem gives_fold {invariant : β → Prop} {f : β → α → Throw β}
    (each : ∀ state value, invariant state → (f state value).Gives invariant) (values : List α) {state : β}
    (start : invariant state) : (values.foldlM f state).Gives invariant := by
  induction values generalizing state with
  | nil => exact start
  | cons value values ih => exact gives_bind (each state value start) fun next reached => ih reached

end Throw

namespace Single

def redrawn (patience : Nat) (roll : Single) : Throw (List Face) := do
  let thrown ← Throw.many roll.die roll.count .done
  roll.rerolls.foldlM (Reroll.faces patience roll.die) (thrown.map roll.die.face)

theorem faces_eq_redrawn (patience : Nat) (roll : Single) :
    roll.faces patience = roll.redrawn patience >>= fun redrawn =>
      match roll.exploding with
      | some explosion => explosion.faces patience roll.die redrawn
      | none => .done redrawn := by
  rw [redrawn, bind_assoc]
  rfl

structure Table (count : Nat) (faces : List Face) : Prop where
  length : faces.length = count
  unsigned : Tail.Unsigned faces

end Single

namespace Throw

section Standard

variable {die : Die} {sides : Sides} (standard : die = .standard sides) {value : Whole}

include standard

theorem pos_of_can_show (can : die.CanShow value) : 1 ≤ value.val := by
  subst standard
  exact can.1

theorem nonneg_of_can_show (can : die.CanShow value) : 0 ≤ (die.face value).value.val :=
  Int.le_of_lt (pos_of_can_show standard can)

theorem until_refused_gives (test : Test) (patience : Nat) :
    (untilRefused die test patience).Gives fun face => 0 ≤ face.value.val := by
  induction patience with
  | zero => trivial
  | succ patience ih =>
      intro value can
      dsimp only
      split
      · exact ih
      · exact nonneg_of_can_show standard can

theorem reroll_gives (reroll : Reroll) (patience : Nat) {count : Nat} {faces : List Face}
    (before : Single.Table count faces) : (Reroll.faces patience die faces reroll).Gives (Single.Table count) := by
  have each : ∀ face ∈ faces, (reroll.face patience die face).Gives fun face => 0 ≤ face.value.val := by
    intro face found
    unfold Reroll.face
    split
    · split
      · exact fun value can => nonneg_of_can_show standard can
      · exact until_refused_gives standard reroll.test patience
    · exact before.unsigned face found
  apply gives_mono (gives_map each)
  intro redrawn kept
  exact ⟨kept.1.trans before.length, kept.2⟩

theorem added_nonneg {kind : Explosion.Kind} {face : Face} (can : die.CanShow value)
    (given : Explosion.added? kind die value = some face) : 0 ≤ face.value.val := by
  have pos := pos_of_can_show standard can
  unfold Explosion.added? at given
  split at given
  · obtain ⟨lower, less, rfl⟩ := Option.map_eq_some_iff.mp given
    have same : lower.val = value.val - 1 := Whole.ofInt?_eq_some.mp less
    change 0 ≤ lower.val
    omega
  · cases given
    exact nonneg_of_can_show standard can

/-- What every further face that is not negative keeps holds of all the faces added, latest first. -/
theorem chain_keeps (explosion : Explosion) (patience owed : Nat) {invariant : List Face → Prop}
    (keeps : ∀ face added, 0 ≤ face.value.val → invariant added → invariant (face :: added)) {added : List Face}
    (before : invariant added) :
    (explosion.chain die patience owed added).Gives fun faces => invariant faces.reverse := by
  have ended : invariant added.reverse.reverse := by rwa [List.reverse_reverse]
  induction patience generalizing owed added with
  | zero =>
      cases owed with
      | zero => exact ended
      | succ owed => trivial
  | succ patience ih =>
      cases owed with
      | zero => exact ended
      | succ owed =>
          intro value can
          dsimp only
          split
          · trivial
          · rename_i face given
            have more : invariant (face :: added) := keeps face added (added_nonneg standard can given) before
            exact ih _ more (by rwa [List.reverse_reverse])

theorem chain_gives (explosion : Explosion) (patience owed : Nat) :
    (explosion.chain die patience owed []).Gives Tail.Unsigned := by
  have keeps (face : Face) (added : List Face) (nonneg : 0 ≤ face.value.val) (before : Tail.Unsigned added) :
      Tail.Unsigned (face :: added) := List.forall_mem_cons.mpr ⟨nonneg, before⟩
  apply gives_mono (chain_keeps standard explosion patience owed keeps (List.forall_mem_nil _))
  exact fun faces unsigned face found => unsigned face (List.mem_reverse.mpr found)

theorem compound_gives (test : Test) (patience : Nat) {sum : Whole} (before : 0 ≤ sum.val) :
    (Explosion.compound die test patience sum).Gives fun total => 0 ≤ total.val := by
  induction patience generalizing sum with
  | zero => trivial
  | succ patience ih =>
      intro value can
      dsimp only
      split
      · trivial
      · rename_i next added
        have pos := pos_of_can_show standard can
        have reached : next.val = sum.val + value.val := Whole.add_eq_some.mp added
        have more : 0 ≤ next.val := by omega
        split
        · exact ih more
        · exact more

theorem explosion_gives (explosion : Explosion) (patience : Nat) {faces : List Face} (before : Tail.Unsigned faces) :
    (explosion.faces patience die faces).Gives Tail.Unsigned := by
  unfold Explosion.faces
  dsimp only
  split
  · apply gives_bind (gives_map fun _ _ => compound_gives standard explosion.test patience (Int.le_refl 0))
    intro sums summed
    exact List.forall_mem_append.mpr ⟨before, List.forall_mem_map.mpr summed.2⟩
  · apply gives_bind (chain_gives standard explosion patience _)
    intro added kept
    exact List.forall_mem_append.mpr ⟨before, kept⟩

end Standard

variable {single : Single} {sides : Sides}

theorem redrawn_gives (standard : single.die = .standard sides) (patience : Nat) :
    (single.redrawn patience).Gives (Single.Table single.count) := by
  have thrown : (many single.die single.count done).Gives fun values =>
      Single.Table single.count (values.map single.die.face) := by
    intro values length can
    refine ⟨by rw [List.length_map, length], List.forall_mem_map.mpr ?_⟩
    exact fun value found => nonneg_of_can_show standard (can value found)
  apply gives_bind thrown
  intro values first
  exact gives_fold (fun _ reroll => reroll_gives standard reroll patience) single.rerolls first

/-- No face of a standard die is negative, whatever is done with the dice before they are counted. -/
theorem faces_gives (standard : single.die = .standard sides) (patience : Nat) :
    (single.faces patience).Gives Tail.Unsigned := by
  rw [Single.faces_eq_redrawn]
  apply gives_bind (redrawn_gives standard patience)
  intro redrawn table
  split
  · exact explosion_gives standard _ patience table.unsigned
  · exact table.unsigned

end Throw

namespace Session

variable {σ α : Type} {roller : Roller σ}

/-- What a throw gives is what its runs come to, because every roller shows only what the dice can. -/
theorem carry_out_gives {property : α → Prop} {throw : Throw α} (gives : throw.Gives property) (session : Session σ)
    (past : List Event) {value : α} (done : (carryOut roller throw session past).outcome = .ok value) :
    property value := by
  induction throw generalizing session past with
  | done other =>
      cases done
      exact gives
  | overflow => cases done
  | endless => cases done
  | one die next ih =>
      cases answer : (session.ask 1).exceeded? with
      | some limit =>
          rw [one_refused answer] at done
          cases done
      | none =>
          rw [one_granted answer] at done
          exact ih _ (gives _ (roller.can_show_one die session.source)) _ _ done
  | many die count next ih =>
      cases answer : (session.ask count).exceeded? with
      | some limit =>
          rw [many_refused answer] at done
          cases done
      | none =>
          rw [many_granted answer] at done
          have length : ((roller.throwMany die count session.source).1.map die.shown).length = count := by
            rw [List.length_map, length_throw_many]
          exact ih _ (gives _ length (roller.can_show_many die count session.source)) _ _ done
  | note roll result next ih => exact ih gives session _ done

end Session

end Tabletop
