import Tabletop.Session

/-!
# Carrying out a throw

What a single request does to a session, and from it what a whole run does: the counter never falls, a refusal names the
budget, and every request that is granted is thrown and told.
-/

namespace Tabletop

set_option autoImplicit false

/-- So many samples lead the roller from the one state to the other. -/
inductive Roller.Leads {σ : Type} (roller : Roller σ) : Nat → σ → σ → Prop where
  | here {source : σ} : Leads roller 0 source source
  | behind {count : Nat} {source last : σ} (sides : Sides)
      (rest : Leads roller count (roller.sample sides source).2 last) : Leads roller (count + 1) source last

theorem Roller.Leads.trans {σ : Type} {roller : Roller σ} {count more : Nat} {source middle last : σ}
    (before : roller.Leads count source middle) (after : roller.Leads more middle last) :
    roller.Leads (count + more) source last := by
  induction before with
  | here => rwa [Nat.zero_add]
  | behind sides _ ih =>
      rw [Nat.add_right_comm]
      exact .behind sides (ih after)

/-- Goes on from the value in the session behind the run; a run without a value is the end. -/
def Run.followedBy {σ ε α β : Type} (run : Run σ ε α) (next : α → Session σ → Run σ ε β) : Run σ ε β :=
  match run.outcome with
  | .ok value => { next value run.session with events := run.events ++ (next value run.session).events }
  | .error mishap => ⟨.error mishap, run.session, run.events⟩

namespace Session

variable {σ α β : Type} {roller : Roller σ} {session : Session σ} {limit count : Nat}

theorem ask_asked (room : session.asked + count ≤ 18446744073709551615) :
    (session.ask count).asked = session.asked + count :=
  Nat.min_eq_left room

theorem asked_le_ask (count : Nat) (small : session.asked ≤ 18446744073709551615) :
    session.asked ≤ (session.ask count).asked :=
  Nat.le_min.mpr ⟨Nat.le_add_right _ _, small⟩

def served (count : Nat) (source : σ) (session : Session σ) : Session σ := { session.ask count with source }

theorem asked_served (count : Nat) (source : σ) (session : Session σ) :
    (session.served count source).asked = min (session.asked + count) 18446744073709551615 :=
  rfl

theorem asked_le_served (count : Nat) (source : σ) (small : session.asked ≤ 18446744073709551615) :
    session.asked ≤ (session.served count source).asked :=
  asked_le_ask count small

theorem served_small (count : Nat) (source : σ) (session : Session σ) :
    (session.served count source).asked ≤ 18446744073709551615 :=
  Nat.min_le_right _ _

theorem exceeded_of_le (covered : ∀ limit ∈ session.budget, session.asked + count ≤ limit) :
    (session.ask count).exceeded? = none := by
  unfold exceeded? ask
  dsimp only
  split
  · rename_i limit budget
    have fits := covered limit budget
    exact if_neg (by omega)
  · rfl

theorem exceeded_of_lt (budget : session.budget = some limit) (small : limit < 18446744073709551615)
    (beyond : limit < session.asked + count) : (session.ask count).exceeded? = some limit := by
  unfold exceeded? ask
  dsimp only
  rw [budget]
  exact if_pos (by omega)

theorem exceeded_eq_some {session : Session σ} (exceeded : session.exceeded? = some limit) :
    session.budget = some limit ∧ limit < session.asked := by
  unfold exceeded? at exceeded
  split at exceeded
  · split at exceeded
    · cases exceeded
      exact ⟨‹_›, ‹_›⟩
    · cases exceeded
  · cases exceeded

section

variable {die : Die} {next : Whole → Throw α} {nexts : List Whole → Throw α} {past : List Event}

theorem one_refused (refused : (session.ask 1).exceeded? = some limit) :
    carryOut roller (.one die next) session past =
      ⟨.error (.tooManyRolls limit), session.ask 1, (.exhausted limit :: past).reverse⟩ := by
  simp only [carryOut, refused]

theorem one_granted (granted : (session.ask 1).exceeded? = none) :
    carryOut roller (.one die next) session past =
      carryOut roller (next (die.shown (roller.throwOne die session.source).1))
        (session.served 1 (roller.throwOne die session.source).2)
        (.threw die (roller.throwOne die session.source).1 :: past) := by
  simp only [carryOut, granted]
  rfl

theorem many_refused (refused : (session.ask count).exceeded? = some limit) :
    carryOut roller (.many die count nexts) session past =
      ⟨.error (.tooManyRolls limit), session.ask count, (.exhausted limit :: past).reverse⟩ := by
  simp only [carryOut, refused]

theorem many_granted (granted : (session.ask count).exceeded? = none) :
    carryOut roller (.many die count nexts) session past =
      carryOut roller (nexts ((roller.throwMany die count session.source).1.map die.shown))
        (session.served count (roller.throwMany die count session.source).2)
        ((roller.throwMany die count session.source).1.reverse.map (.threw die) ++ past) := by
  simp only [carryOut, granted]
  rfl

end

/-- Under a budget a request is refused or it is counted exactly. -/
theorem request_cases (budget : session.budget = some limit) (small : limit < 18446744073709551615) (count : Nat) :
    (session.ask count).exceeded? = some limit ∧ limit < session.asked + count ∨
      (session.ask count).exceeded? = none ∧ (session.ask count).asked = session.asked + count ∧
        session.asked + count ≤ limit := by
  by_cases covered : session.asked + count ≤ limit
  · refine .inr ⟨exceeded_of_le ?_, ask_asked (by omega), covered⟩
    intro bound same
    rw [budget] at same
    cases same
    exact covered
  · have beyond : limit < session.asked + count := by omega
    exact .inl ⟨exceeded_of_lt budget small beyond, beyond⟩

theorem length_throw_onto (roller : Roller σ) (die : Die) (thrown : List Nat) (count : Nat) (source : σ) :
    (roller.throwOnto die thrown count source).1.length = thrown.length + count := by
  induction count generalizing thrown source with
  | zero => exact List.length_reverse
  | succ count ih =>
      rw [Roller.throwOnto, ih, List.length_cons]
      omega

theorem length_throw_many (roller : Roller σ) (die : Die) (count : Nat) (source : σ) :
    (roller.throwMany die count source).1.length = count := by
  rw [Roller.throwMany, length_throw_onto]
  exact Nat.zero_add count

theorem leads_throw_onto (roller : Roller σ) (die : Die) (thrown : List Nat) (count : Nat) (source : σ) :
    roller.Leads count source (roller.throwOnto die thrown count source).2 := by
  induction count generalizing thrown source with
  | zero => exact .here
  | succ count ih => exact .behind die.asks (ih _ _)

theorem leads_throw_many (roller : Roller σ) (die : Die) (count : Nat) (source : σ) :
    roller.Leads count source (roller.throwMany die count source).2 :=
  leads_throw_onto roller die [] count source

/-- What a run keeps: it ends, it is refused, or it goes on behind faces that were thrown or behind a note. -/
theorem carry_out_induction {motive : Session σ → List Event → Run σ Mishap α → Prop}
    (ended : ∀ session past outcome, (∀ bound, outcome ≠ .error (.tooManyRolls bound)) →
      motive session past ⟨outcome, session, past.reverse⟩)
    (refused : ∀ session past count bound, (session.ask count).exceeded? = some bound →
      motive session past ⟨.error (.tooManyRolls bound), session.ask count, (.exhausted bound :: past).reverse⟩)
    (granted : ∀ session past die (numbers : List Nat) source run,
      (session.ask numbers.length).exceeded? = none → roller.Leads numbers.length session.source source →
      motive (session.served numbers.length source) (numbers.reverse.map (.threw die) ++ past) run →
      motive session past run)
    (note : ∀ session past roll result run, motive session (.rolled roll result :: past) run →
      motive session past run)
    (throw : Throw α) (session : Session σ) (past : List Event) :
    motive session past (carryOut roller throw session past) := by
  induction throw generalizing session past with
  | done value => exact ended session past _ fun _ same => by cases same
  | overflow => exact ended session past _ fun _ same => by cases same
  | endless => exact ended session past _ fun _ same => by cases same
  | one die next ih =>
      cases answer : (session.ask 1).exceeded? with
      | some bound =>
          rw [one_refused answer]
          exact refused session past 1 bound answer
      | none =>
          rw [one_granted answer]
          exact granted session past die [_] _ _ answer (.behind die.asks .here) (ih _ _ _)
  | many die count next ih =>
      cases answer : (session.ask count).exceeded? with
      | some bound =>
          rw [many_refused answer]
          exact refused session past count bound answer
      | none =>
          have length := length_throw_many roller die count session.source
          rw [many_granted answer]
          apply granted session past die (roller.throwMany die count session.source).1
          · rwa [length]
          · rw [length]
            exact leads_throw_many roller die count session.source
          · rw [length]
            exact ih _ _ _
  | note roll result next ih => exact note session past roll result _ (ih _ _)

theorem carry_out_past (throw : Throw α) (session : Session σ) (past : List Event) :
    carryOut roller throw session past =
      { carryOut roller throw session [] with
        events := past.reverse ++ (carryOut roller throw session []).events } := by
  induction throw generalizing session past with
  | done value => simp only [carryOut, List.reverse_nil, List.append_nil]
  | overflow => simp only [carryOut, List.reverse_nil, List.append_nil]
  | endless => simp only [carryOut, List.reverse_nil, List.append_nil]
  | one die next ih =>
      cases answer : (session.ask 1).exceeded? with
      | some limit =>
          rw [one_refused answer, one_refused answer]
          simp only [List.reverse_cons, List.reverse_nil, List.nil_append]
      | none =>
          rw [one_granted answer, one_granted answer, ih _ _ (_ :: past), ih _ _ [_]]
          simp only [List.reverse_cons, List.reverse_nil, List.nil_append, List.append_assoc]
  | many die count next ih =>
      cases answer : (session.ask count).exceeded? with
      | some limit =>
          rw [many_refused answer, many_refused answer]
          simp only [List.reverse_cons, List.reverse_nil, List.nil_append]
      | none =>
          rw [many_granted answer, many_granted answer, ih _ _ (_ ++ past), ih _ _ (_ ++ [])]
          simp only [List.reverse_append, List.append_nil, List.append_assoc]
  | note roll result next ih =>
      rw [carryOut, carryOut, ih _ (_ :: past), ih _ [_]]
      simp only [List.reverse_cons, List.reverse_nil, List.nil_append, List.append_assoc]

/-- A throw that goes on behind another one is carried out in the session that the first one leaves. -/
theorem carry_out_bind (throw : Throw α) (f : α → Throw β) (session : Session σ) (past : List Event) :
    carryOut roller (throw >>= f) session past =
      (carryOut roller throw session past).followedBy fun value later => carryOut roller (f value) later [] := by
  induction throw generalizing session past with
  | done value => exact carry_out_past (f value) session past
  | overflow => rfl
  | endless => rfl
  | one die next ih =>
      change carryOut roller (.one die fun value => next value >>= f) session past = _
      cases answer : (session.ask 1).exceeded? with
      | some limit =>
          rw [one_refused answer, one_refused answer]
          rfl
      | none =>
          rw [one_granted answer, one_granted answer]
          exact ih _ _ _
  | many die count next ih =>
      change carryOut roller (.many die count fun values => next values >>= f) session past = _
      cases answer : (session.ask count).exceeded? with
      | some limit =>
          rw [many_refused answer, many_refused answer]
          rfl
      | none =>
          rw [many_granted answer, many_granted answer]
          exact ih _ _ _
  | note roll result next ih => exact ih session _

theorem carry_out_map (f : α → β) (throw : Throw α) (session : Session σ) (past : List Event) :
    carryOut roller (f <$> throw) session past = (carryOut roller throw session past).map f := by
  rw [map_eq_pure_bind, carry_out_bind, Run.followedBy, Run.map]
  cases (carryOut roller throw session past).outcome with
  | ok value => exact congrArg (Run.mk _ _) (List.append_nil _)
  | error mishap => rfl

theorem asked_le_carry_out (throw : Throw α) (session : Session σ) (past : List Event)
    (small : session.asked ≤ 18446744073709551615) :
    session.asked ≤ (carryOut roller throw session past).session.asked := by
  refine carry_out_induction (motive := fun session _ run => session.asked ≤ 18446744073709551615 →
    session.asked ≤ run.session.asked) ?_ ?_ ?_ ?_ throw session past small
  · exact fun _ _ _ _ _ => Nat.le_refl _
  · exact fun _ _ count _ _ small => asked_le_ask count small
  · intro session past die numbers source run _ _ ih small
    exact Nat.le_trans (asked_le_served numbers.length source small) (ih (served_small _ _ _))
  · exact fun _ _ _ _ _ ih => ih

/-- A refusal names the budget, and more has been asked for than it. -/
theorem refused_of_carry_out {throw : Throw α} {past : List Event}
    (refused : (carryOut roller throw session past).outcome = .error (.tooManyRolls limit)) :
    session.budget = some limit ∧ limit < (carryOut roller throw session past).session.asked := by
  refine carry_out_induction (motive := fun session _ run => run.outcome = .error (.tooManyRolls limit) →
    session.budget = some limit ∧ limit < run.session.asked) ?_ ?_ ?_ ?_ throw session past refused
  · exact fun _ _ _ kept refused => absurd refused (kept limit)
  · intro session past count bound answer refused
    cases refused
    exact exceeded_eq_some answer
  · exact fun _ _ _ _ _ _ _ _ ih refused => ih refused
  · exact fun _ _ _ _ _ ih => ih

theorem ask_le_one (die : Die) (next : Whole → Throw α) (past : List Event) :
    (session.ask 1).asked ≤ (carryOut roller (.one die next) session past).session.asked := by
  cases answer : (session.ask 1).exceeded? with
  | some limit => simp only [one_refused answer, Nat.le_refl]
  | none =>
      rw [one_granted answer]
      exact asked_le_carry_out _ _ _ (served_small 1 (roller.throwOne die session.source).2 session)

theorem ask_le_many (die : Die) (count : Nat) (next : List Whole → Throw α) (past : List Event) :
    (session.ask count).asked ≤ (carryOut roller (.many die count next) session past).session.asked := by
  cases answer : (session.ask count).exceeded? with
  | some limit => simp only [many_refused answer, Nat.le_refl]
  | none =>
      rw [many_granted answer]
      exact asked_le_carry_out _ _ _ (served_small count (roller.throwMany die count session.source).2 session)

def draws : List Event → Nat
  | [] => 0
  | .threw _ _ :: events => draws events + 1
  | .rolled _ _ :: events => draws events
  | .exhausted _ :: events => draws events

theorem draws_append (before after : List Event) : draws (before ++ after) = draws before + draws after := by
  induction before with
  | nil => exact (Nat.zero_add _).symm
  | cons event before ih =>
      cases event with
      | threw die number =>
          rw [List.cons_append, draws, draws, ih]
          omega
      | rolled roll result => exact ih
      | exhausted bound => exact ih

theorem draws_reverse (events : List Event) : draws events.reverse = draws events := by
  induction events with
  | nil => rfl
  | cons event events ih =>
      rw [List.reverse_cons, draws_append, ih]
      cases event <;> rfl

theorem draws_map_threw (die : Die) (numbers : List Nat) : draws (numbers.map (.threw die)) = numbers.length := by
  induction numbers with
  | nil => rfl
  | cons number numbers ih => rw [List.map_cons, draws, ih, List.length_cons]

/-- Where nothing is refused, every request was thrown: the counter tells the draws, up to the largest number it has. -/
theorem asked_eq_draws (throw : Throw α) (session : Session σ) (past : List Event)
    (kept : ∀ bound, (carryOut roller throw session past).outcome ≠ .error (.tooManyRolls bound))
    (small : session.asked ≤ 18446744073709551615) :
    ∃ thrown, draws (carryOut roller throw session past).events = draws past + thrown ∧
      (carryOut roller throw session past).session.asked = min (session.asked + thrown) 18446744073709551615 := by
  refine carry_out_induction (motive := fun session past run =>
    (∀ bound, run.outcome ≠ .error (.tooManyRolls bound)) → session.asked ≤ 18446744073709551615 →
      ∃ thrown, draws run.events = draws past + thrown ∧
        run.session.asked = min (session.asked + thrown) 18446744073709551615) ?_ ?_ ?_ ?_ throw session past kept small
  · exact fun _ past _ _ _ small => ⟨0, draws_reverse past, (Nat.min_eq_left small).symm⟩
  · exact fun _ _ _ bound _ kept => absurd rfl (kept bound)
  · intro session past die numbers source run _ _ ih kept small
    obtain ⟨thrown, logged, asked⟩ := ih kept (served_small _ _ _)
    refine ⟨thrown + numbers.length, ?_, ?_⟩
    · rw [logged, draws_append, draws_map_threw, List.length_reverse]
      omega
    · rw [asked, asked_served]
      omega
  · exact fun _ _ _ _ _ ih => ih

end Session

end Tabletop
