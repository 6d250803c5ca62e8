import Mathlib
import Tabletop.Command
import Tabletop.Proofs.Session.CarryOut

/-!
# Accounts of a session

An account goes with a session from one command to the next: the samples taken since the counter was last set to zero,
and whether a request was refused since. Under a budget the samples never exceed it, the counter tells them until the
first refusal, and from then on nothing is thrown any more.
-/

namespace Tabletop

set_option autoImplicit false

namespace Throw

def asks {α : Type} : Throw α → Bool
  | done _ => false
  | overflow => false
  | endless => false
  | one _ _ => true
  | many _ _ _ => true
  | note _ _ next => next.asks

end Throw

namespace Command

/-- The throw that a command is, if it is one. A notation that cannot be read is none. -/
def throw? (patience : Nat) : Command → Option (Throw Reply)
  | .evaluate roll => some (.result <$> roll.throw patience)
  | .evaluateText cs =>
    match Notation.read cs with
    | .ok roll => some (.result <$> roll.throw patience)
    | .error _ => none
  | .report cs =>
    match Notation.read cs with
    | .ok roll => some (.line <$> Report.line roll <$> roll.throw patience)
    | .error _ => none
  | .throwDie die => some (.face <$> .one die fun value => .done (die.face value))
  | .throwDice die count => some (.faces <$> .many die count fun values => .done (values.map die.face))
  | .reset => none
  | .renew _ => none

def asks (patience : Nat) (command : Command) : Bool := (command.throw? patience).any (·.asks)

def restarts : Command → Bool
  | .reset => true
  | .renew _ => true
  | _ => false

end Command

namespace Run

def isRefused {σ α : Type} (run : Run σ Refusal α) : Bool :=
  match run.outcome with
  | .error (.unfinished (.tooManyRolls _)) => true
  | _ => false

end Run

namespace Session

variable {σ α β : Type} {roller : Roller σ} {session : Session σ} {limit : Nat}

theorem map_map_error (f : α → β) (run : Run σ Mishap α) :
    (run.mapError Refusal.unfinished).map f = (run.map f).mapError Refusal.unfinished := by
  obtain ⟨outcome, session, events⟩ := run
  cases outcome <;> rfl

theorem obey_of_throw {command : Command} {throw : Throw Reply}
    (throws : command.throw? session.patience = some throw) :
    session.obey roller command = (carryOut roller throw session []).mapError .unfinished := by
  cases command with
  | evaluate roll =>
      cases throws
      rw [carry_out_map]
      rfl
  | evaluateText cs =>
      dsimp only [Command.throw?] at throws
      split at throws
      · rename_i roll denotes
        cases throws
        rw [carry_out_map, ← map_map_error]
        simp only [obey, evaluateText, denotes]
        rfl
      · cases throws
  | report cs =>
      dsimp only [Command.throw?] at throws
      split at throws
      · rename_i roll denotes
        cases throws
        rw [carry_out_map, carry_out_map, ← map_map_error]
        simp only [obey, report, denotes]
        rfl
      · cases throws
  | throwDie die =>
      cases throws
      rw [carry_out_map]
      rfl
  | throwDice die count =>
      cases throws
      rw [carry_out_map]
      rfl
  | reset => cases throws
  | renew budget => cases throws

/-- A command that neither throws nor starts anew is a notation that cannot be read, and changes nothing. -/
theorem obey_of_idle (roller : Roller σ) {command : Command} (idle : command.throw? session.patience = none)
    (goesOn : command.restarts = false) :
    ∃ fault, session.obey roller command = ⟨.error (.unreadable fault), session, []⟩ := by
  cases command with
  | evaluateText cs =>
      dsimp only [Command.throw?] at idle
      split at idle
      · cases idle
      · rename_i fault unreadable
        exact ⟨fault, by simp only [obey, evaluateText, unreadable]; rfl⟩
  | report cs =>
      dsimp only [Command.throw?] at idle
      split at idle
      · cases idle
      · rename_i fault unreadable
        exact ⟨fault, by simp only [obey, report, unreadable]; rfl⟩
  | evaluate => cases idle
  | throwDie => cases idle
  | throwDice => cases idle
  | reset => cases goesOn
  | renew => cases goesOn

theorem budget_carry_out (throw : Throw α) (session : Session σ) (past : List Event) :
    (carryOut roller throw session past).session.budget = session.budget := by
  refine carry_out_induction (motive := fun session _ run => run.session.budget = session.budget) ?_ ?_ ?_ ?_
    throw session past
  · exact fun _ _ _ _ => rfl
  · exact fun _ _ _ _ _ => rfl
  · exact fun _ _ _ _ _ _ _ _ ih => ih
  · exact fun _ _ _ _ _ ih => ih

/-- A throw within the budget takes no more samples than the budget has left. It is counted exactly, or it is refused
and the counter is beyond the budget. -/
theorem carry_out_within (roller : Roller σ) (budget : session.budget = some limit)
    (small : limit < 18446744073709551615) (within : session.asked ≤ limit) (throw : Throw α) (past : List Event) :
    ∃ thrown, draws (carryOut roller throw session past).events = draws past + thrown ∧
      roller.Leads thrown session.source (carryOut roller throw session past).session.source ∧
      session.asked + thrown ≤ limit ∧
      ((∀ bound, (carryOut roller throw session past).outcome ≠ .error (.tooManyRolls bound)) ∧
          (carryOut roller throw session past).session.asked = session.asked + thrown ∨
        (carryOut roller throw session past).outcome = .error (.tooManyRolls limit) ∧
          limit < (carryOut roller throw session past).session.asked) := by
  refine carry_out_induction (motive := fun session past run =>
    session.budget = some limit → session.asked ≤ limit →
      ∃ thrown, draws run.events = draws past + thrown ∧ roller.Leads thrown session.source run.session.source ∧
        session.asked + thrown ≤ limit ∧
        ((∀ bound, run.outcome ≠ .error (.tooManyRolls bound)) ∧ run.session.asked = session.asked + thrown ∨
          run.outcome = .error (.tooManyRolls limit) ∧ limit < run.session.asked)) ?_ ?_ ?_ ?_
    throw session past budget within
  · intro session past outcome kept _ within
    exact ⟨0, draws_reverse past, .here, within, .inl ⟨kept, rfl⟩⟩
  · intro session past count bound answer budget within
    obtain ⟨same, beyond⟩ := exceeded_eq_some answer
    have named : bound = limit := Option.some.inj (same.symm.trans budget)
    subst named
    exact ⟨0, draws_reverse (.exhausted bound :: past), .here, within, .inr ⟨rfl, beyond⟩⟩
  · intro session past die numbers source run answer leads ih budget within
    rcases request_cases budget small numbers.length with ⟨refused, -⟩ | ⟨-, asked, covered⟩
    · rw [answer] at refused
      cases refused
    · have counted : (session.served numbers.length source).asked = session.asked + numbers.length := asked
      obtain ⟨thrown, logged, leads', fits, ended⟩ := ih budget (counted ▸ covered)
      rw [counted, Nat.add_assoc] at fits ended
      refine ⟨numbers.length + thrown, ?_, leads.trans leads', fits, ended⟩
      rw [logged, draws_append, draws_map_threw, List.length_reverse]
      omega
  · exact fun _ _ _ _ _ ih => ih

theorem carry_out_beyond (roller : Roller σ) (budget : session.budget = some limit)
    (small : limit < 18446744073709551615) (beyond : limit < session.asked) (throw : Throw α) (past : List Event) :
    draws (carryOut roller throw session past).events = draws past ∧
      (carryOut roller throw session past).session.source = session.source ∧
      limit < (carryOut roller throw session past).session.asked ∧
      (throw.asks = true → (carryOut roller throw session past).outcome = .error (.tooManyRolls limit)) := by
  have refused (count : Nat) : (session.ask count).exceeded? = some limit :=
    exceeded_of_lt budget small (Nat.lt_add_right count beyond)
  induction throw generalizing past with
  | done value => exact ⟨draws_reverse past, rfl, beyond, fun asks => by cases asks⟩
  | overflow => exact ⟨draws_reverse past, rfl, beyond, fun asks => by cases asks⟩
  | endless => exact ⟨draws_reverse past, rfl, beyond, fun asks => by cases asks⟩
  | one die next =>
      rw [one_refused (refused 1)]
      exact ⟨draws_reverse (.exhausted limit :: past), rfl, (exceeded_eq_some (refused 1)).2, fun _ => rfl⟩
  | many die count next =>
      rw [many_refused (refused count)]
      exact ⟨draws_reverse (.exhausted limit :: past), rfl, (exceeded_eq_some (refused count)).2, fun _ => rfl⟩
  | note roll result next ih => exact ih _

theorem not_refused_of_kept {run : Run σ Mishap α} (kept : ∀ bound, run.outcome ≠ .error (.tooManyRolls bound)) :
    (run.mapError Refusal.unfinished).isRefused = false := by
  obtain ⟨outcome, session, events⟩ := run
  cases outcome with
  | ok value => rfl
  | error mishap =>
      cases mishap with
      | tooManyRolls bound => exact absurd rfl (kept bound)
      | overflow => rfl
      | endless => rfl

theorem refused_of_outcome {run : Run σ Mishap α} (refused : run.outcome = .error (.tooManyRolls limit)) :
    (run.mapError Refusal.unfinished).isRefused = true := by
  obtain ⟨outcome, session, events⟩ := run
  cases refused
  rfl

theorem goes_on_of_asks {command : Command} {patience : Nat} (asks : command.asks patience = true) :
    command.restarts = false := by
  cases command with
  | reset => cases asks
  | renew => cases asks
  | _ => rfl

theorem budget_obey {command : Command} (goesOn : command.restarts = false) :
    (session.obey roller command).session.budget = session.budget := by
  cases throws : command.throw? session.patience with
  | none =>
      obtain ⟨fault, same⟩ := obey_of_idle roller throws goesOn
      rw [same]
  | some throw =>
      rw [obey_of_throw throws]
      exact budget_carry_out throw session []

theorem obey_within (roller : Roller σ) (budget : session.budget = some limit)
    (small : limit < 18446744073709551615) (within : session.asked ≤ limit) {command : Command}
    (goesOn : command.restarts = false) :
    roller.Leads (draws (session.obey roller command).events) session.source
        (session.obey roller command).session.source ∧
      session.asked + draws (session.obey roller command).events ≤ limit ∧
      ((session.obey roller command).isRefused = false ∧
          (session.obey roller command).session.asked = session.asked + draws (session.obey roller command).events ∨
        (session.obey roller command).isRefused = true ∧ limit < (session.obey roller command).session.asked) := by
  cases throws : command.throw? session.patience with
  | none =>
      obtain ⟨fault, same⟩ := obey_of_idle roller throws goesOn
      rw [same]
      exact ⟨.here, within, .inl ⟨rfl, rfl⟩⟩
  | some throw =>
      obtain ⟨thrown, logged, leads, fits, ended⟩ := carry_out_within roller budget small within throw []
      have drawn : draws (carryOut roller throw session []).events = thrown := logged.trans (Nat.zero_add thrown)
      subst drawn
      rw [obey_of_throw throws]
      refine ⟨leads, fits, ?_⟩
      rcases ended with ⟨kept, asked⟩ | ⟨refused, beyond⟩
      · exact .inl ⟨not_refused_of_kept kept, asked⟩
      · exact .inr ⟨refused_of_outcome refused, beyond⟩

/-- Beyond the budget no command but a new start takes a sample, and one that asks for dice is refused. -/
theorem obey_beyond (roller : Roller σ) (budget : session.budget = some limit)
    (small : limit < 18446744073709551615) (beyond : limit < session.asked) {command : Command}
    (goesOn : command.restarts = false) :
    draws (session.obey roller command).events = 0 ∧
      (session.obey roller command).session.source = session.source ∧
      limit < (session.obey roller command).session.asked ∧
      (command.asks session.patience = true →
        (session.obey roller command).outcome = .error (.unfinished (.tooManyRolls limit))) := by
  cases throws : command.throw? session.patience with
  | none =>
      obtain ⟨fault, same⟩ := obey_of_idle roller throws goesOn
      rw [same, Command.asks, throws]
      exact ⟨rfl, rfl, beyond, fun asks => by cases asks⟩
  | some throw =>
      obtain ⟨logged, source, asked, refused⟩ := carry_out_beyond roller budget small beyond throw []
      rw [obey_of_throw throws, Command.asks, throws]
      refine ⟨logged, source, asked, ?_⟩
      intro asks
      change (carryOut roller throw session []).outcome.mapError Refusal.unfinished = _
      rw [refused asks]
      rfl

end Session

/-- A session, and what came of it since its counter was last set to zero. -/
structure Account (σ : Type) where
  session : Session σ
  /-- The source as it was then. -/
  origin : σ
  samples : Nat
  refused : Bool

namespace Account

variable {σ : Type} {roller : Roller σ} {account : Account σ} {limit : Nat}

def fresh (session : Session σ) : Account σ := ⟨session, session.source, 0, false⟩

def enter (roller : Roller σ) (account : Account σ) (command : Command) : Account σ :=
  let run := account.session.obey roller command
  if command.restarts then fresh run.session
  else ⟨run.session, account.origin, account.samples + Session.draws run.events, account.refused || run.isRefused⟩

def enterAll (roller : Roller σ) (account : Account σ) (commands : List Command) : Account σ :=
  commands.foldl (enter roller) account

structure Within (roller : Roller σ) (limit : Nat) (account : Account σ) : Prop where
  samples_le : account.samples ≤ limit
  sampled : roller.Leads account.samples account.origin account.session.source
  counted : account.refused = false → account.session.asked = account.samples
  beyond : account.refused = true → limit < account.session.asked

theorem fresh_within {session : Session σ} (unasked : session.asked = 0) : (fresh session).Within roller limit where
  samples_le := Nat.zero_le limit
  sampled := .here
  counted _ := unasked
  beyond refused := by cases refused

theorem enter_of_restarts {command : Command} (restarts : command.restarts = true) :
    account.enter roller command = fresh (account.session.obey roller command).session :=
  if_pos restarts

theorem enter_of_goes_on (roller : Roller σ) (account : Account σ) {command : Command}
    (goesOn : command.restarts = false) :
    account.enter roller command =
      ⟨(account.session.obey roller command).session, account.origin,
        account.samples + Session.draws (account.session.obey roller command).events,
        account.refused || (account.session.obey roller command).isRefused⟩ :=
  if_neg (by simp [goesOn])

/-- What an account keeps: its own budget limits it, if the counter can tell that budget. -/
def Kept (roller : Roller σ) (account : Account σ) : Prop :=
  ∀ limit, account.session.budget = some limit → limit < 18446744073709551615 → account.Within roller limit

theorem enter_kept (kept : account.Kept roller) (command : Command) : (account.enter roller command).Kept roller := by
  intro limit budget small
  cases goesOn : command.restarts with
  | true =>
      rw [enter_of_restarts goesOn]
      apply fresh_within
      cases command with
      | reset => rfl
      | renew => rfl
      | _ => cases goesOn
  | false =>
      rw [enter_of_goes_on roller account goesOn] at budget ⊢
      have before : account.session.budget = some limit := (Session.budget_obey goesOn).symm.trans budget
      have within := kept limit before small
      cases refused : account.refused with
      | false =>
          have counted := within.counted refused
          have covered : account.session.asked ≤ limit := counted ▸ within.samples_le
          obtain ⟨leads, fits, ended⟩ := Session.obey_within roller before small covered goesOn
          rw [counted] at fits ended
          refine ⟨fits, within.sampled.trans leads, ?_, ?_⟩
          · intro accepted
            rcases ended with ⟨_, asked⟩ | ⟨ended, _⟩
            · exact asked
            · rw [Bool.false_or, ended] at accepted
              cases accepted
          · intro refused
            rcases ended with ⟨ended, _⟩ | ⟨_, beyond⟩
            · rw [Bool.false_or, ended] at refused
              cases refused
            · exact beyond
      | true =>
          have beyond := within.beyond refused
          obtain ⟨none, source, asked, _⟩ := Session.obey_beyond roller before small beyond goesOn
          rw [none]
          constructor
          · exact within.samples_le
          · change roller.Leads account.samples account.origin (account.session.obey roller command).session.source
            rw [source]
            exact within.sampled
          · intro accepted
            cases accepted
          · exact fun _ => asked

theorem enter_all_kept (kept : account.Kept roller) (commands : List Command) :
    (account.enterAll roller commands).Kept roller := by
  induction commands generalizing account with
  | nil => exact kept
  | cons command commands ih => exact ih (enter_kept kept command)

theorem enter_all_beyond (budget : account.session.budget = some limit) (small : limit < 18446744073709551615)
    (beyond : limit < account.session.asked) {commands : List Command}
    (goOn : ∀ command ∈ commands, command.restarts = false) :
    (account.enterAll roller commands).session.budget = some limit ∧
      limit < (account.enterAll roller commands).session.asked ∧
      (account.enterAll roller commands).session.source = account.session.source := by
  induction commands generalizing account with
  | nil => exact ⟨budget, beyond, rfl⟩
  | cons command commands ih =>
      obtain ⟨goesOn, goOn⟩ := List.forall_mem_cons.mp goOn
      obtain ⟨_, source, asked, _⟩ := Session.obey_beyond roller budget small beyond goesOn
      have entered := enter_of_goes_on roller account goesOn
      have kept : (account.enter roller command).session.budget = some limit := by
        rw [entered]
        exact (Session.budget_obey goesOn).trans budget
      have past : limit < (account.enter roller command).session.asked := by
        rw [entered]
        exact asked
      have rested : (account.enter roller command).session.source = account.session.source := by
        rw [entered]
        exact source
      obtain ⟨budget', beyond', source'⟩ := ih kept past goOn
      exact ⟨budget', beyond', source'.trans rested⟩

/-- Whatever is asked of a session, the samples taken since its counter was last set to zero are within the budget, and
the counter tells them as long as nothing was refused. Once something was refused, the counter stays beyond the budget,
the source rests and every request for dice is refused, until the next start. A notation that cannot be read changes
nothing. -/
theorem samples_within_budget (roller : Roller σ) (budget : Option Nat) (source : σ) (commands : List Command)
    (bounded : ((fresh (.start budget source)).enterAll roller commands).session.budget = some limit)
    (small : limit < 18446744073709551615) :
    let account := (fresh (.start budget source)).enterAll roller commands
    account.Within roller limit ∧
      (account.refused = true → ∀ later : List Command, (∀ command ∈ later, command.restarts = false) →
        let session := (account.enterAll roller later).session
        limit < session.asked ∧ session.source = account.session.source ∧
          ∀ command : Command, command.asks session.patience = true →
            (session.obey roller command).outcome = .error (.unfinished (.tooManyRolls limit)) ∧
              (session.obey roller command).session.source = session.source ∧
              Session.draws (session.obey roller command).events = 0) ∧
      ∀ cs fault, Notation.read cs = .error fault → ∀ command ∈ [Command.evaluateText cs, .report cs],
        (account.session.obey roller command).session = account.session := by
  intro account
  have kept : (fresh (Session.start budget source)).Kept roller := fun _ _ _ => fresh_within rfl
  have within : account.Within roller limit := enter_all_kept kept commands limit bounded small
  refine ⟨within, ?_, ?_⟩
  · intro refused later goOn
    obtain ⟨budget, beyond, rests⟩ := enter_all_beyond bounded small (within.beyond refused) goOn
    refine ⟨beyond, rests, ?_⟩
    intro command asks
    obtain ⟨none, source, _, tooMany⟩ :=
      Session.obey_beyond roller budget small beyond (Session.goes_on_of_asks asks)
    exact ⟨tooMany asks, source, none⟩
  · intro cs fault unreadable command found
    simp only [List.mem_cons, List.not_mem_nil, or_false] at found
    rcases found with rfl | rfl
    · simp only [Session.obey, Session.evaluateText, unreadable]
      rfl
    · simp only [Session.obey, Session.report, unreadable]
      rfl

theorem three_samples_within_budget :
    let roller : Roller Nat := ⟨fun _ taken => (4, taken + 1)⟩
    let die : Die := .standard ⟨6, by decide, by decide⟩
    let account := (fresh (.start (some 3) 0)).enterAll roller
      [.throwDice die 2, .throwDice die 2, .reset, .throwDice die 3, .throwDie die]
    account.samples = 3 ∧ account.origin = 2 ∧ account.session.source = 5 ∧ account.samples ≤ 3 ∧
      3 < account.session.asked ∧
      (account.session.obey roller (.throwDice die 0)).outcome = .error (.unfinished (.tooManyRolls 3)) := by
  intro roller die account
  have bounded : account.session.budget = some 3 := by cbv
  have beyond : account.refused = true := by cbv
  obtain ⟨within, later, _⟩ := samples_within_budget roller (some 3) 0 _ bounded (by decide)
  obtain ⟨asked, _, requests⟩ := later beyond [] (List.forall_mem_nil _)
  exact ⟨by cbv, by cbv, by cbv, within.samples_le, asked, (requests (.throwDice die 0) rfl).1⟩

end Account

end Tabletop
