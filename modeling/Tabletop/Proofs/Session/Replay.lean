import Tabletop.Proofs.Session.Budget
import Tabletop.Roller.Tape

/-!
# Replaying a run

The record of a run names the dice that were thrown and their numbers. A roller that reads these numbers from a script
answers the same requests in the same way, so the run repeats itself, whatever the first roller answered and whatever
the budget allowed. A script is wrapped into the range of each die; what was recorded is in that range already.
-/

namespace Tabletop

set_option autoImplicit false

variable {σ τ ε α : Type}

namespace Event

def throw? : Event → Option (Die × Nat)
  | threw die number => some (die, number)
  | rolled _ _ => none
  | exhausted _ => none

end Event

def thrown (events : List Event) : List (Die × Nat) := events.filterMap Event.throw?

theorem Die.bounded_range (die : Die) (sample : Nat) :
    1 ≤ die.bounded sample ∧ die.bounded sample ≤ die.asks.count := by
  have pos := die.asks.pos
  rw [bounded]
  omega

namespace Roller

/-- The throws are the answers of the roller, one after the other, each clamped to the range that its die asks for. -/
inductive Answers (roller : Roller σ) : σ → List (Die × Nat) → σ → Prop where
  | nil {source : σ} : Answers roller source [] source
  | cons {source last : σ} {throws : List (Die × Nat)} (die : Die)
      (rest : Answers roller (roller.sample die.asks source).2 throws last) :
      Answers roller source ((die, die.bounded (roller.sample die.asks source).1) :: throws) last

theorem Answers.trans {roller : Roller σ} {source middle last : σ} {throws more : List (Die × Nat)}
    (before : roller.Answers source throws middle) (after : roller.Answers middle more last) :
    roller.Answers source (throws ++ more) last := by
  induction before with
  | nil => exact after
  | cons die _ ih => exact .cons die (ih after)

theorem throw_onto_eq (roller : Roller σ) (die : Die) (earlier : List Nat) (count : Nat) (source : σ) :
    roller.throwOnto die earlier count source =
      (earlier.reverse ++ (roller.throwMany die count source).1, (roller.throwMany die count source).2) := by
  induction count generalizing earlier source with
  | zero => simp [throwMany, throwOnto]
  | succ count ih => simp [throwMany, throwOnto, ih (_ :: _)]

theorem throw_many_succ (roller : Roller σ) (die : Die) (count : Nat) (source : σ) :
    let first := roller.throwOne die source
    let others := roller.throwMany die count first.2
    roller.throwMany die (count + 1) source = (first.1 :: others.1, others.2) :=
  throw_onto_eq roller die [_] count _

theorem answers_throw_many (roller : Roller σ) (die : Die) (count : Nat) (source : σ) :
    roller.Answers source ((roller.throwMany die count source).1.map (Prod.mk die))
      (roller.throwMany die count source).2 := by
  induction count generalizing source with
  | zero => exact .nil
  | succ count ih =>
      rw [throw_many_succ]
      exact .cons die (ih _)

theorem scripted_throw_one (roller : Roller σ) (die : Die) (source : σ) (entries more : List Nat) :
    let number := (roller.throwOne die source).1
    scripted.throwOne die ⟨entries, number :: more⟩ = (number, ⟨entries, more⟩) := by
  intro number
  have range : 1 ≤ number ∧ number ≤ die.asks.count := die.bounded_range _
  have recorded : die.bounded number = number := by
    rw [Die.bounded]
    omega
  have unwrapped : (max number 1 - 1) % die.asks.count + 1 = number := by
    rw [Nat.mod_eq_of_lt (by omega)]
    omega
  simp only [throwOne, scripted, Tape.next, unwrapped, recorded]

theorem scripted_throw_many (roller : Roller σ) (die : Die) (count : Nat) (source : σ) (entries more : List Nat) :
    let numbers := (roller.throwMany die count source).1
    scripted.throwMany die count ⟨entries, numbers ++ more⟩ = (numbers, ⟨entries, more⟩) := by
  induction count generalizing source with
  | zero => rfl
  | succ count ih =>
      have others := ih (roller.throwOne die source).2
      simp only [throw_many_succ, List.cons_append, scripted_throw_one, others]

end Roller

namespace Session

def on (source : τ) (session : Session σ) : Session τ := ⟨session.budget, session.asked, source⟩

end Session

namespace Run

def on (source : τ) (run : Run σ ε α) : Run τ ε α := ⟨run.outcome, run.session.on source, run.events⟩

end Run

namespace Session

variable {roller : Roller σ} {session : Session σ} {past : List Event}

/-- The throws of a run are the answers of its roller, and on a script of their numbers the same comes of it again. -/
structure Replayed (roller : Roller σ) (session : Session σ) (past : List Event) (run : Run σ Mishap α)
    (again : Tape → Run Tape Mishap α) (throws : List (Die × Nat)) : Prop where
  recorded : thrown run.events = thrown past.reverse ++ throws
  answers : roller.Answers session.source throws run.session.source
  scripted : ∀ entries more, again ⟨entries, throws.map Prod.snd ++ more⟩ = run.on ⟨entries, more⟩

theorem replayed_refused (roller : Roller σ) (session : Session σ) (past : List Event) (count limit : Nat) :
    Replayed (α := α) roller session past
      ⟨.error (.tooManyRolls limit), session.ask count, (.exhausted limit :: past).reverse⟩
      (fun tape => ⟨.error (.tooManyRolls limit), (session.on tape).ask count, (.exhausted limit :: past).reverse⟩)
      [] where
  recorded := by simp [thrown, Event.throw?]
  answers := .nil
  scripted _ _ := rfl

theorem replayed_granted {die : Die} {numbers : List Nat} {source : σ} {run : Run σ Mishap α}
    {again behind : Tape → Run Tape Mishap α} {throws : List (Die × Nat)} (count : Nat)
    (answers : roller.Answers session.source (numbers.map (Prod.mk die)) source)
    (goesOn : ∀ entries more, again ⟨entries, numbers ++ more⟩ = behind ⟨entries, more⟩)
    (replayed : Replayed roller (session.served count source) (numbers.reverse.map (.threw die) ++ past) run behind
      throws) :
    Replayed roller session past run again (numbers.map (Prod.mk die) ++ throws) where
  recorded := by
    have drawn : thrown (numbers.map (.threw die)) = numbers.map (Prod.mk die) := by
      simp [thrown, List.filterMap_map, Function.comp_def, Event.throw?]
    rw [replayed.recorded, ← drawn]
    simp [thrown]
  answers := answers.trans replayed.answers
  scripted entries more := by simp [Function.comp_def, goesOn, replayed.scripted]

/-- Whatever a run throws, a script of it repeats the run. -/
theorem carry_out_replayed (roller : Roller σ) (throw : Throw α) (session : Session σ) (past : List Event) :
    ∃ throws, Replayed roller session past (carryOut roller throw session past)
      (fun tape => carryOut Roller.scripted throw (session.on tape) past) throws := by
  induction throw generalizing session past with
  | done value => exact ⟨[], (List.append_nil _).symm, .nil, fun _ _ => rfl⟩
  | overflow => exact ⟨[], (List.append_nil _).symm, .nil, fun _ _ => rfl⟩
  | endless => exact ⟨[], (List.append_nil _).symm, .nil, fun _ _ => rfl⟩
  | one die next ih =>
      cases answer : (session.ask 1).exceeded? with
      | some limit =>
          have refused (tape : Tape) : ((session.on tape).ask 1).exceeded? = some limit := answer
          simp only [one_refused answer, one_refused (refused _)]
          exact ⟨[], replayed_refused roller session past 1 limit⟩
      | none =>
          have granted (tape : Tape) : ((session.on tape).ask 1).exceeded? = none := answer
          have answers : roller.Answers session.source ([(roller.throwOne die session.source).1].map (Prod.mk die))
              (roller.throwOne die session.source).2 := .cons die .nil
          simp only [one_granted answer, one_granted (granted _)]
          obtain ⟨throws, replayed⟩ := ih _ (session.served 1 (roller.throwOne die session.source).2) _
          refine ⟨_, replayed_granted 1 answers ?_ replayed⟩
          intro entries more
          simp only [on, List.singleton_append, Roller.scripted_throw_one]
          rfl
  | many die count next ih =>
      cases answer : (session.ask count).exceeded? with
      | some limit =>
          have refused (tape : Tape) : ((session.on tape).ask count).exceeded? = some limit := answer
          simp only [many_refused answer, many_refused (refused _)]
          exact ⟨[], replayed_refused roller session past count limit⟩
      | none =>
          have granted (tape : Tape) : ((session.on tape).ask count).exceeded? = none := answer
          have answers := Roller.answers_throw_many roller die count session.source
          simp only [many_granted answer, many_granted (granted _)]
          obtain ⟨throws, replayed⟩ := ih _ (session.served count (roller.throwMany die count session.source).2) _
          refine ⟨_, replayed_granted count answers ?_ replayed⟩
          intro entries more
          simp only [on, Roller.scripted_throw_many]
          rfl
  | note roll result next ih =>
      obtain ⟨throws, replayed⟩ := ih session (.rolled roll result :: past)
      have earlier : thrown (.rolled roll result :: past).reverse = thrown past.reverse := by
        simp [thrown, Event.throw?]
      exact ⟨throws, replayed.recorded.trans (congrArg (· ++ throws) earlier), replayed.answers, replayed.scripted⟩

theorem length_thrown (events : List Event) : (thrown events).length = draws events := by
  induction events with
  | nil => rfl
  | cons event events ih => cases event <;> simp_all [thrown, List.filterMap_cons, Event.throw?, draws]

theorem replay_of_carry_out (roller : Roller σ) (throw : Throw α) (budget : Option Nat) (source : σ) :
    let run := carryOut roller throw (start budget source) []
    let numbers := (thrown run.events).map Prod.snd
    roller.Answers source (thrown run.events) run.session.source ∧
      carryOut Roller.scripted throw (start budget (Tape.ofList numbers)) [] = run.on ⟨numbers, []⟩ := by
  intro run numbers
  obtain ⟨throws, replayed⟩ := carry_out_replayed roller throw (start budget source) []
  have same : thrown run.events = throws := replayed.recorded
  have scripted := replayed.scripted numbers []
  rw [← same, List.append_nil] at scripted
  exact ⟨same ▸ replayed.answers, scripted⟩

/-- Every evaluation can be replayed from its own record: the numbers thrown are the answers of the roller, each in the
range of its die, and a script of them leads to the same outcome, count and record. -/
theorem evaluate_replayed {roller : Roller σ} {roll : Roll} {budget : Option Nat} {source : σ}
    {run : Run σ Mishap Result} (ends : Ends roller roll (start budget source) run) :
    let throws := thrown run.events
    let script := start budget (Tape.ofList (throws.map Prod.snd))
    roller.Answers source throws run.session.source ∧ throws.length = draws run.events ∧
      ∃ again, Ends Roller.scripted roll script again ∧ again.outcome = run.outcome ∧
        again.session.asked = run.session.asked ∧ again.events = run.events ∧
        (evaluate roller roll (start budget source) = run → evaluate Roller.scripted roll script = again) := by
  intro throws script
  obtain ⟨patience, done, ended⟩ := ends
  have replayed := replay_of_carry_out roller (roll.throw patience) budget source
  rw [done] at replayed
  obtain ⟨answers, scripted⟩ := replayed
  refine ⟨answers, length_thrown run.events, _, ⟨patience, scripted, ended⟩, rfl, rfl, rfl, ?_⟩
  intro evaluated
  have patient := (replay_of_carry_out roller (roll.throw (start budget source).patience) budget source).2
  change carryOut roller _ _ _ = run at evaluated
  rw [evaluated] at patient
  exact patient

theorem evaluate_replayed_out_of_range :
    let six : Die := .standard ⟨6, by decide, by decide⟩
    let first : Roll := .single
      { Single.plain .one six with exploding := some ⟨.exploding, ⟨.equal, ⟨6, by decide, by decide⟩⟩⟩ }
    let roll : Roll := .group first [.single (.plain .one .fate)] .plain true false
    let source := start (some 3) (.ofList [9, 4, 0])
    thrown (evaluate Roller.verbatim roll source).events = [(six, 6), (six, 4), (.fate, 1)] ∧
      (evaluate Roller.scripted roll (start (some 3) (.ofList [6, 4, 1]))).outcome =
        (evaluate Roller.verbatim roll source).outcome := by
  intro six first roll source
  have outcome : (evaluate Roller.verbatim roll source).outcome = .ok
      ⟨[⟨⟨6, by decide, by decide⟩, "6"⟩, ⟨⟨4, by decide, by decide⟩, "4"⟩, ⟨.minusOne, Glyph.minus⟩],
        ⟨9, by decide, by decide⟩, .zero⟩ := by cbv
  have recorded : thrown (evaluate Roller.verbatim roll source).events = [(six, 6), (six, 4), (.fate, 1)] := by cbv
  obtain ⟨_, _, again, _, same, _, _, evaluated⟩ := evaluate_replayed (ends_of_done outcome)
  have script := evaluated rfl
  rw [recorded] at script
  exact ⟨recorded, script ▸ same⟩

end Session

end Tabletop
