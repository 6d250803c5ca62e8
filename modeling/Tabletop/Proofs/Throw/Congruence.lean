import Tabletop.Throw.Evaluation
import Tabletop.Proofs.Roll.Nodes

/-!
# How the throw of a roll is built

All of a throw is built from its loops by a few constructions. A relation that these keep, and that the loops stand in
for two patiences, relates the throws of every roll for these two.
-/

namespace Tabletop.Throw

set_option autoImplicit false

/-- Every construction of throws keeps the relation. -/
structure Congruence (related : ∀ α : Type, Throw α → Throw α → Prop) : Prop where
  done : ∀ {α : Type} (value : α), related α (done value) (done value)
  overflow : ∀ {α : Type}, related α overflow overflow
  one : ∀ {α : Type} {die : Die} {next next' : Whole → Throw α},
    (∀ value, related α (next value) (next' value)) → related α (one die next) (one die next')
  many : ∀ {α : Type} {die : Die} {count : Nat} {next next' : List Whole → Throw α},
    (∀ values, related α (next values) (next' values)) → related α (many die count next) (many die count next')
  note : ∀ {α : Type} {roll : Roll} {result : Result} {next next' : Throw α},
    related α next next' → related α (note roll result next) (note roll result next')
  bind : ∀ {α β : Type} {throw throw' : Throw α} {f f' : α → Throw β},
    related α throw throw' → (∀ value, related β (f value) (f' value)) → related β (throw >>= f) (throw' >>= f')

/-- The relation holds between the loops with the one patience and with the other. -/
structure Loops (related : ∀ α : Type, Throw α → Throw α → Prop) (patience more : Nat) : Prop where
  refused : ∀ (die : Die) (test : Test), related Face (untilRefused die test patience) (untilRefused die test more)
  chain : ∀ (die : Die) (explosion : Explosion) (owed : Nat) (added : List Face),
    related (List Face) (explosion.chain die patience owed added) (explosion.chain die more owed added)
  compound : ∀ (die : Die) (test : Test),
    related Whole (Explosion.compound die test patience .zero) (Explosion.compound die test more .zero)

variable {related : ∀ α : Type, Throw α → Throw α → Prop} {patience more : Nat} {α β : Type}

theorem map_related (congruence : Congruence related) {f f' : α → Throw β}
    (each : ∀ value, related β (f value) (f' value)) (values : List α) :
    related (List β) (values.mapM f) (values.mapM f') := by
  induction values with
  | nil => exact congruence.done []
  | cons value values ih =>
      rw [List.mapM_cons, List.mapM_cons]
      apply congruence.bind (each value)
      intro head
      apply congruence.bind ih
      intro rest
      exact congruence.done (head :: rest)

theorem fold_related (congruence : Congruence related) {f f' : β → α → Throw β}
    (each : ∀ state value, related β (f state value) (f' state value)) (values : List α) (state : β) :
    related β (values.foldlM f state) (values.foldlM f' state) := by
  induction values generalizing state with
  | nil => exact congruence.done state
  | cons value values ih => exact congruence.bind (each state value) ih

theorem checked_related (congruence : Congruence related) (value : Option α) :
    related α (checked value) (checked value) := by
  cases value with
  | none => exact congruence.overflow
  | some value => exact congruence.done value

theorem complete_related (congruence : Congruence related) (roll : Roll) (result : Option Result) :
    related Result (complete roll result) (complete roll result) := by
  cases result with
  | none => exact congruence.overflow
  | some result => exact congruence.note (congruence.done result)

theorem reroll_related (congruence : Congruence related) (loops : Loops related patience more) (die : Die)
    (reroll : Reroll) (faces : List Face) :
    related (List Face) (Reroll.faces patience die faces reroll) (Reroll.faces more die faces reroll) := by
  apply map_related congruence
  intro face
  unfold Reroll.face
  split
  · split
    · apply congruence.one
      intro value
      exact congruence.done _
    · exact loops.refused die reroll.test
  · exact congruence.done face

theorem explosion_related (congruence : Congruence related) (loops : Loops related patience more) (die : Die)
    (explosion : Explosion) (faces : List Face) :
    related (List Face) (explosion.faces patience die faces) (explosion.faces more die faces) := by
  unfold Explosion.faces
  dsimp only
  split
  · apply congruence.bind
    · exact map_related congruence (fun _ => loops.compound die explosion.test) _
    · exact fun sums => congruence.done _
  · apply congruence.bind
    · exact loops.chain die explosion _ _
    · exact fun added => congruence.done _

theorem faces_related (congruence : Congruence related) (loops : Loops related patience more) (single : Single) :
    related (List Face) (single.faces patience) (single.faces more) := by
  apply congruence.bind
  · apply congruence.many
    intro values
    exact congruence.done values
  intro thrown
  apply congruence.bind
  · exact fold_related congruence (fun faces reroll => reroll_related congruence loops single.die reroll faces) _ _
  intro redrawn
  split
  · exact explosion_related congruence loops single.die _ redrawn
  · exact congruence.done redrawn

theorem single_related (congruence : Congruence related) (loops : Loops related patience more) (single : Single) :
    related Result (single.throw patience) (single.throw more) := by
  unfold Single.throw
  split
  · exact congruence.done _
  · apply congruence.bind (faces_related congruence loops single)
    intro faces
    exact complete_related congruence _ _

theorem others_related (patience more : Nat) (congruence : Congruence related) {others : List Roll}
    (each : ∀ member ∈ others, related Result (member.throw patience) (member.throw more)) (combined : Bool)
    (pool : List Face) :
    related (List Face) (Roll.throwOthers patience combined others pool)
      (Roll.throwOthers more combined others pool) := by
  induction others generalizing pool with
  | nil => exact congruence.done pool
  | cons member others ih =>
      obtain ⟨ofMember, ofOthers⟩ := List.forall_mem_cons.mp each
      rw [Roll.throwOthers, Roll.throwOthers]
      apply congruence.bind ofMember
      intro result
      apply congruence.bind (checked_related congruence _)
      intro faces
      exact ih ofOthers _

theorem throw_related (congruence : Congruence related) (loops : Loops related patience more) (roll : Roll) :
    related Result (roll.throw patience) (roll.throw more) := by
  induction roll using Roll.members_induction with
  | single single => exact single_related congruence loops single
  | group first others tail combined negative ih =>
      rw [Roll.throw_group, Roll.throw_group]
      apply congruence.bind (others_related patience more congruence ih combined [])
      intro faces
      exact complete_related congruence _ _

end Tabletop.Throw
