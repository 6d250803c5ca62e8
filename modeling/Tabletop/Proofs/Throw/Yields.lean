import Tabletop.Proofs.Roll.Nodes
import Tabletop.Proofs.Roll.Symbols
import Tabletop.Proofs.Session.CarryOut

/-!
# What a throw yields

Whatever the dice show, a throw that comes to a value comes to one with some property, and so do the results that are
noted on its way. What is said of a throw in this way holds of every run of it.
-/

namespace Tabletop

set_option autoImplicit false

namespace Throw

variable {α β : Type} {noted : Roll → Result → Prop}

/-- The value has the property and every result noted before it is right for its roll. -/
def Yields (noted : Roll → Result → Prop) (property : α → Prop) : Throw α → Prop
  | done value => property value
  | overflow => True
  | endless => True
  | one _ next => ∀ value, (next value).Yields noted property
  | many _ _ next => ∀ values, (next values).Yields noted property
  | note roll result next => noted roll result ∧ next.Yields noted property

theorem yields_bind {first : α → Prop} {second : β → Prop} {throw : Throw α} {f : α → Throw β}
    (before : throw.Yields noted first) (after : ∀ value, first value → (f value).Yields noted second) :
    (throw >>= f).Yields noted second := by
  induction throw with
  | done value => exact after value before
  | overflow => trivial
  | endless => trivial
  | one die next ih => exact fun value => ih value (before value)
  | many die count next ih => exact fun values => ih values (before values)
  | note roll result next ih => exact ⟨before.1, ih before.2⟩

theorem yields_mono {first second : α → Prop} {throw : Throw α} (yields : throw.Yields noted first)
    (weaken : ∀ value, first value → second value) : throw.Yields noted second := by
  induction throw with
  | done value => exact weaken value yields
  | overflow => trivial
  | endless => trivial
  | one die next ih => exact fun value => ih value (yields value)
  | many die count next ih => exact fun values => ih values (yields values)
  | note roll result next ih => exact ⟨yields.1, ih yields.2⟩

theorem yields_checked {property : α → Prop} {value : Option α}
    (right : ∀ result, value = some result → property result) : (checked value).Yields noted property := by
  cases value with
  | none => trivial
  | some result => exact right result rfl

theorem yields_complete {roll : Roll} {value : Option Result}
    (right : ∀ result, value = some result → noted roll result) : (complete roll value).Yields noted (noted roll) := by
  cases value with
  | none => trivial
  | some result => exact ⟨right result rfl, right result rfl⟩

theorem yields_map {property : β → Prop} {f : α → Throw β} {values : List α}
    (each : ∀ value ∈ values, (f value).Yields noted property) :
    (values.mapM f).Yields noted fun results => ∀ result ∈ results, property result := by
  induction values with
  | nil => exact List.forall_mem_nil _
  | cons value values ih =>
      obtain ⟨first, others⟩ := List.forall_mem_cons.mp each
      rw [List.mapM_cons]
      apply yields_bind first
      intro result ofFirst
      apply yields_bind (ih others)
      intro results ofOthers
      exact List.forall_mem_cons.mpr ⟨ofFirst, ofOthers⟩

theorem yields_fold {invariant : β → Prop} {f : β → α → Throw β}
    (each : ∀ state value, invariant state → (f state value).Yields noted invariant) (values : List α) {state : β}
    (start : invariant state) : (values.foldlM f state).Yields noted invariant := by
  induction values generalizing state with
  | nil => exact start
  | cons value values ih => exact yields_bind (each state value start) fun next reached => ih reached

section

variable {shown : Face → Prop} {die : Die} (faced : ∀ value, shown (die.face value))

include faced

theorem until_refused_yields (test : Test) (patience : Nat) : (untilRefused die test patience).Yields noted shown := by
  induction patience with
  | zero => trivial
  | succ patience ih =>
      intro value
      dsimp only
      split
      · exact ih
      · exact faced value

theorem reroll_yields (reroll : Reroll) (patience : Nat) {faces : List Face} (before : ∀ face ∈ faces, shown face) :
    (Reroll.faces patience die faces reroll).Yields noted fun faces => ∀ face ∈ faces, shown face := by
  apply yields_map
  intro face found
  unfold Reroll.face
  split
  · split
    · exact faced
    · exact until_refused_yields faced reroll.test patience
  · exact before face found

theorem faced_of_added {kind : Explosion.Kind} {value : Whole} {face : Face}
    (given : Explosion.added? kind die value = some face) : shown face := by
  unfold Explosion.added? at given
  split at given
  · obtain ⟨lower, -, rfl⟩ := Option.map_eq_some_iff.mp given
    exact faced lower
  · cases given
    exact faced value

theorem chain_yields (explosion : Explosion) (patience owed : Nat) {added : List Face}
    (before : ∀ face ∈ added, shown face) :
    (explosion.chain die patience owed added).Yields noted fun faces => ∀ face ∈ faces, shown face := by
  have ended : ∀ face ∈ added.reverse, shown face := fun face found => before face (List.mem_reverse.mp found)
  induction patience generalizing owed added with
  | zero =>
      cases owed with
      | zero => exact ended
      | succ owed => trivial
  | succ patience ih =>
      cases owed with
      | zero => exact ended
      | succ owed =>
          intro value
          dsimp only
          split
          · trivial
          · rename_i face given
            have faced' : shown face := faced_of_added faced given
            have before' : ∀ other ∈ face :: added, shown other := List.forall_mem_cons.mpr ⟨faced', before⟩
            exact ih _ before' fun other found => before' other (List.mem_reverse.mp found)

end

/-- The sum goes on from what it was with the values up to the first that the test refuses. -/
theorem compound_yields (die : Die) (test : Test) (patience : Nat) (sum : Whole) :
    (Explosion.compound die test patience sum).Yields noted fun total => ∃ (earlier : List Whole) (last : Whole),
      (∀ thrown ∈ earlier, test.accepts thrown = true) ∧ test.accepts last = false ∧
        total.val = sum.val + ((earlier.map Whole.val).sum + last.val) := by
  induction patience generalizing sum with
  | zero => trivial
  | succ patience ih =>
      intro value
      dsimp only
      split
      · trivial
      · rename_i next added
        have reached : next.val = sum.val + value.val := Whole.ofInt?_eq_some.mp added
        cases accepted : test.accepts value with
        | true =>
            rw [if_pos rfl]
            apply yields_mono (ih next)
            intro total summed
            obtain ⟨earlier, last, all, refused, same⟩ := summed
            refine ⟨value :: earlier, last, List.forall_mem_cons.mpr ⟨accepted, all⟩, refused, ?_⟩
            rw [same, List.map_cons, List.sum_cons]
            omega
        | false =>
            rw [if_neg Bool.false_ne_true]
            exact ⟨[], value, List.forall_mem_nil _, accepted, by simpa using reached⟩

theorem explosion_shown {single : Single} {explosion : Explosion} (given : single.exploding = some explosion)
    (patience : Nat) {faces : List Face} (before : ∀ face ∈ faces, single.Shows face) :
    (explosion.faces patience single.die faces).Yields noted fun faces => ∀ face ∈ faces, single.Shows face := by
  have faced : ∀ value, single.Shows (single.die.face value) := fun value => .die rfl
  unfold Explosion.faces
  dsimp only
  split
  · rename_i compounded
    apply yields_bind (yields_map fun _ _ => compound_yields single.die explosion.test patience .zero)
    intro sums summed
    refine List.forall_mem_append.mpr ⟨before, List.forall_mem_map.mpr ?_⟩
    intro sum found
    obtain ⟨earlier, last, all, refused, same⟩ := summed sum found
    exact .sum given ⟨compounded, earlier, last, all, refused, same.trans (Int.zero_add _)⟩ rfl
  · apply yields_bind (chain_yields faced explosion patience _ (List.forall_mem_nil _))
    intro added shown
    exact List.forall_mem_append.mpr ⟨before, shown⟩

/-- The faces that are thrown show what the roll's die shows, or they are compounded sums. -/
theorem faces_shown (single : Single) (patience : Nat) :
    (single.faces patience).Yields noted fun faces => ∀ face ∈ faces, single.Shows face := by
  have faced : ∀ value, single.Shows (single.die.face value) := fun value => .die rfl
  have thrown : (many single.die single.count done).Yields noted fun _ => True := fun _ => trivial
  apply yields_bind thrown
  intro values _
  have first : ∀ face ∈ values.map single.die.face, single.Shows face :=
    List.forall_mem_map.mpr fun value _ => faced value
  apply yields_bind (yields_fold (fun _ reroll => reroll_yields faced reroll patience) single.rerolls first)
  intro redrawn shown
  split
  · exact explosion_shown ‹_› patience shown
  · exact shown

/-- What is noted of a roll follows from its faces, and so do the faces that it puts into its group. -/
structure Kept (noted : Roll → Result → Prop) (pooled : Face → Prop) : Prop where
  idle : ∀ single : Single, single.count = 0 → noted (.single single) .empty
  dice : ∀ (single : Single) (faces : List Face) (result : Result), single.count ≠ 0 →
    (∀ face ∈ faces, single.Shows face) →
    single.tail.score? single.multiplier.isNegative (single.order.apply (single.tail.limited faces)) = some result →
    noted (.single single) result
  contribution : ∀ (combined : Bool) (member : Roll) (result : Result) (faces : List Face), noted member result →
    member.contribution? combined result = some faces → ∀ face ∈ faces, pooled face
  group : ∀ (first : Roll) (others : List Roll) (tail : Tail) (combined negative : Bool) (faces : List Face)
    (result : Result), (∀ face ∈ faces, pooled face) → tail.score? negative (tail.limited faces) = some result →
    noted (.group first others tail combined negative) result

variable {pooled : Face → Prop}

theorem others_yields (kept : Kept noted pooled) (patience : Nat) (combined : Bool) {others : List Roll}
    (each : ∀ member ∈ others, (member.throw patience).Yields noted (noted member)) {pool : List Face}
    (before : ∀ face ∈ pool, pooled face) :
    (Roll.throwOthers patience combined others pool).Yields noted fun faces => ∀ face ∈ faces, pooled face := by
  induction others generalizing pool with
  | nil => exact before
  | cons member others ih =>
      obtain ⟨ofMember, ofOthers⟩ := List.forall_mem_cons.mp each
      rw [Roll.throwOthers]
      apply yields_bind ofMember
      intro result right
      apply yields_bind (yields_checked (kept.contribution combined member result · right))
      intro faces added
      exact ih ofOthers (List.forall_mem_append.mpr ⟨before, added⟩)

theorem throw_yields (kept : Kept noted pooled) (roll : Roll) (patience : Nat) :
    (roll.throw patience).Yields noted (noted roll) := by
  induction roll using Roll.members_induction with
  | single single =>
      rw [Roll.throw, Single.throw]
      split
      · exact kept.idle single ‹_›
      · apply yields_bind (faces_shown single patience)
        intro faces shown
        exact yields_complete fun result => kept.dice single faces result ‹_› shown
  | group first others tail combined negative ih =>
      rw [Roll.throw_group]
      apply yields_bind (others_yields kept patience combined ih (List.forall_mem_nil _))
      intro faces gathered
      exact yields_complete fun result => kept.group first others tail combined negative faces result gathered

end Throw

/-- The run of such a throw: the same of its outcome and of its events. -/
structure Run.Yields {σ ε α : Type} (noted : Roll → Result → Prop) (property : α → Prop) (run : Run σ ε α) : Prop where
  value : ∀ value, run.outcome = .ok value → property value
  events : ∀ roll result, .rolled roll result ∈ run.events → noted roll result

namespace Session

variable {σ α : Type} {roller : Roller σ} {noted : Roll → Result → Prop} {property : α → Prop} {past : List Event}

theorem stopped_yields {outcome : Except Mishap α} (session : Session σ)
    (right : ∀ value, outcome = .ok value → property value)
    (earlier : ∀ roll result, .rolled roll result ∈ past → noted roll result) :
    (⟨outcome, session, past.reverse⟩ : Run σ Mishap α).Yields noted property where
  value := right
  events roll result found := earlier roll result (List.mem_reverse.mp found)

theorem refused_yields (session : Session σ) (limit : Nat)
    (earlier : ∀ roll result, .rolled roll result ∈ past → noted roll result) :
    (⟨.error (.tooManyRolls limit), session, (.exhausted limit :: past).reverse⟩ : Run σ Mishap α).Yields
      noted property := by
  apply stopped_yields session (fun _ same => by cases same)
  intro roll result found
  rcases List.mem_cons.mp found with same | found
  · cases same
  · exact earlier roll result found

theorem rolled_behind_draws {die : Die} (numbers : List Nat)
    (earlier : ∀ roll result, .rolled roll result ∈ past → noted roll result) :
    ∀ roll result, .rolled roll result ∈ numbers.map (Event.threw die) ++ past → noted roll result := by
  intro roll result found
  rcases List.mem_append.mp found with drawn | found
  · obtain ⟨number, _, same⟩ := List.mem_map.mp drawn
    cases same
  · exact earlier roll result found

theorem carry_out_yields {throw : Throw α} (yields : throw.Yields noted property) (session : Session σ)
    (earlier : ∀ roll result, .rolled roll result ∈ past → noted roll result) :
    (carryOut roller throw session past).Yields noted property := by
  induction throw generalizing session past with
  | done value =>
      apply stopped_yields session ?_ earlier
      intro other same
      cases same
      exact yields
  | overflow => exact stopped_yields session (fun _ same => by cases same) earlier
  | endless => exact stopped_yields session (fun _ same => by cases same) earlier
  | one die next ih =>
      cases answer : (session.ask 1).exceeded? with
      | some limit =>
          rw [one_refused answer]
          exact refused_yields _ limit earlier
      | none =>
          rw [one_granted answer]
          exact ih _ (yields _) _ (rolled_behind_draws [_] earlier)
  | many die count next ih =>
      cases answer : (session.ask count).exceeded? with
      | some limit =>
          rw [many_refused answer]
          exact refused_yields _ limit earlier
      | none =>
          rw [many_granted answer]
          exact ih _ (yields _) _ (rolled_behind_draws _ earlier)
  | note roll result next ih =>
      apply ih yields.2
      intro other value found
      rcases List.mem_cons.mp found with same | found
      · cases same
        exact yields.1
      · exact earlier other value found

theorem fresh_yields {throw : Throw α} (yields : throw.Yields noted property) (session : Session σ) :
    (carryOut roller throw session []).Yields noted property :=
  carry_out_yields yields session fun _ _ found => by cases found

end Session

end Tabletop
