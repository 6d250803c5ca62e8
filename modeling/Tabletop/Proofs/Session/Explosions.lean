import Mathlib
import Tabletop.Throw.Explode
import Tabletop.Proofs.Session.Course

/-!
# How far dice explode

Exploding and penetrating dice go on until as many dice were thrown as the faces on the table and the values thrown
since have earned, and stop at the first such number. The values alone decide how long that takes: what the new faces
show is never tested, so the two kinds throw the same dice.
-/

namespace Tabletop

set_option autoImplicit false

namespace Explosion

/-- Goes through values from the front. For each that the test accepts one die is thrown, and its value waits behind the
others. -/
def walk (die : Die) (explosion : Explosion) (patience : Nat) (waiting : List Whole) (faces : List Face) :
    Throw (List Face) :=
  match waiting with
  | [] =>
    .done faces
  | value :: waiting =>
    if explosion.test.accepts value then
      match patience with
      | 0 => .endless
      | patience + 1 =>
        .one die fun drawn =>
          match added? explosion.kind die drawn with
          | none => .overflow
          | some face => walk die explosion patience (waiting ++ [drawn]) (faces ++ [face])
    else walk die explosion patience waiting faces
termination_by (patience, waiting.length)

theorem walk_nil (die : Die) (explosion : Explosion) (patience : Nat) (faces : List Face) :
    walk die explosion patience [] faces = .done faces := by
  rw [walk]

theorem walk_refused {die : Die} {explosion : Explosion} {value : Whole}
    (refused : explosion.test.accepts value = false) (patience : Nat) (waiting : List Whole) (faces : List Face) :
    walk die explosion patience (value :: waiting) faces = walk die explosion patience waiting faces := by
  rw [walk.eq_def]
  exact if_neg (ne_true_of_eq_false refused)

theorem walk_eq_chain (die : Die) (explosion : Explosion) (patience : Nat) (waiting : List Whole)
    (faces added : List Face) :
    walk die explosion patience waiting (faces ++ added.reverse) =
      (faces ++ ·) <$> chain die explosion patience (waiting.countP explosion.test.accepts) added := by
  induction patience using Nat.strong_induction_on generalizing waiting added with
  | _ patience again =>
      induction waiting with
      | nil =>
          rw [List.countP_nil, Throw.chain_none]
          exact walk_nil die explosion patience _
      | cons value waiting ih =>
          cases accepted : explosion.test.accepts value with
          | false => rw [walk_refused accepted, ih, List.countP_cons_of_neg (by simp [accepted])]
          | true =>
              rw [walk.eq_def, List.countP_cons_of_pos accepted]
              refine (if_pos accepted).trans ?_
              cases patience with
              | zero => rfl
              | succ patience =>
                  refine congrArg (Throw.one die) (funext fun drawn => ?_)
                  dsimp only
                  cases added? explosion.kind die drawn with
                  | none => rfl
                  | some face =>
                      have next := again patience (Nat.lt_succ_self patience) (waiting ++ [drawn]) (face :: added)
                      rw [List.reverse_cons, ← List.append_assoc, List.countP_append, List.countP_singleton] at next
                      refine next.trans ?_
                      cases explosion.test.accepts drawn <;> rfl

theorem countP_values (test : Test) (faces : List Face) :
    (faces.map (·.value)).countP test.accepts = (faces.filter fun face => test.accepts face.value).length := by
  rw [List.countP_map, List.countP_eq_length_filter]
  rfl

theorem faces_eq_chain {explosion : Explosion} (kind : explosion.kind ≠ .compounded) (patience : Nat) (die : Die)
    (faces : List Face) :
    explosion.faces patience die faces =
      (faces ++ ·) <$> chain die explosion patience ((faces.map (·.value)).countP explosion.test.accepts) [] := by
  obtain ⟨kind', test⟩ := explosion
  rw [countP_values]
  cases kind' with
  | compounded => exact absurd rfl kind
  | exploding => rfl
  | penetrating => rfl

theorem faces_eq_walk {explosion : Explosion} (kind : explosion.kind ≠ .compounded) (patience : Nat) (die : Die)
    (faces : List Face) :
    explosion.faces patience die faces = walk die explosion patience (faces.map (·.value)) faces := by
  have walked := walk_eq_chain die explosion patience (faces.map (·.value)) faces []
  rw [List.reverse_nil, List.append_nil] at walked
  rw [faces_eq_chain kind, walked]

/-- Throws while a throw is owed, and tells the values thrown, whatever is made of them. -/
def values (die : Die) (test : Test) : (patience owed : Nat) → List Whole → Throw (List Whole)
  | _, 0, thrown =>
    .done thrown.reverse
  | 0, _, _ =>
    .endless
  | patience + 1, owed + 1, thrown =>
    .one die fun value => values die test patience (if test.accepts value then owed + 1 else owed) (value :: thrown)

theorem values_none (die : Die) (test : Test) (patience : Nat) (thrown : List Whole) :
    values die test patience 0 thrown = .done thrown.reverse := by
  cases patience <;> rfl

def Adds (die : Die) (kind : Explosion.Kind) (value : Whole) (face : Face) : Prop :=
  face = die.face face.value ∧ face.value.val = if kind = .penetrating then value.val - 1 else value.val

theorem adds_of_added {die : Die} {kind : Explosion.Kind} {value : Whole} {face : Face}
    (added : added? kind die value = some face) : Adds die kind value face := by
  cases kind with
  | exploding | compounded =>
      cases added
      exact ⟨rfl, rfl⟩
  | penetrating =>
      obtain ⟨lower, difference, rfl⟩ := Option.map_eq_some_iff.mp added
      exact ⟨rfl, Whole.ofInt?_eq_some.mp difference⟩

theorem le_shown (die : Die) (number : Nat) : -1 ≤ (die.shown number).val := by
  cases die with
  | standard sides =>
      simp only [Die.shown, Whole.capped]
      split
      · exact Int.le_trans (by decide) (Int.natCast_nonneg number)
      · decide
  | fate =>
      simp only [Die.shown]
      split
      · decide
      · split <;> decide

theorem added_shown (kind : Explosion.Kind) (die : Die) (number : Nat) :
    ∃ face, added? kind die (die.shown number) = some face := by
  cases kind with
  | exploding | compounded => exact ⟨_, rfl⟩
  | penetrating =>
      have low := le_shown die number
      have high := (die.shown number).high
      cases difference : (die.shown number).sub? .one with
      | some lower => exact ⟨die.face lower, by rw [added?, difference]; rfl⟩
      | none =>
          have one : Whole.one.val = 1 := rfl
          rcases Whole.ofInt?_eq_none.mp difference with less | more <;> omega

section

variable {die : Die} {kind : Explosion.Kind} {before added lowered : List Face} {values : List Whole}
  {plain : Except Mishap (List Whole)} {outcome outcome' : Except Mishap (List Face)}

inductive Shown (die : Die) (kind : Explosion.Kind) (before : List Face) :
    Except Mishap (List Whole) → Except Mishap (List Face) → Prop where
  | ok {values : List Whole} {added : List Face} (each : List.Forall₂ (Adds die kind) values added) :
      Shown die kind before (.ok values) (.ok (before ++ added))
  | error (mishap : Mishap) : Shown die kind before (.error mishap) (.error mishap)

theorem shown_behind (shown : Shown die kind [] plain outcome) (before : List Face) :
    Shown die kind before plain (outcome.map (before ++ ·)) := by
  cases shown with
  | ok each => exact .ok each
  | error mishap => exact .error mishap

theorem ok_iff_of_shown (shown : Shown die kind before plain outcome) :
    (∃ faces, outcome = .ok faces) ↔ ∃ values, plain = .ok values := by
  cases shown with
  | ok each => exact ⟨fun _ => ⟨_, rfl⟩, fun _ => ⟨_, rfl⟩⟩
  | error mishap => simp

theorem added_of_shown (shown : Shown die kind before (.ok values) outcome) :
    ∃ added, List.Forall₂ (Adds die kind) values added ∧ outcome = .ok (before ++ added) := by
  cases shown with
  | ok each => exact ⟨_, each, rfl⟩

theorem error_of_shown {mishap : Mishap} (shown : Shown die kind before plain (.error mishap)) :
    plain = .error mishap := by
  cases shown
  rfl

/-- The faces that exploding dice add are higher by one than those of penetrating dice. -/
inductive Alike (before : List Face) : Except Mishap (List Face) → Except Mishap (List Face) → Prop where
  | ok {added lowered : List Face}
      (each : List.Forall₂ (fun face lower => face.value.val = lower.value.val + 1) added lowered) :
      Alike before (.ok (before ++ added)) (.ok (before ++ lowered))
  | error (mishap : Mishap) : Alike before (.error mishap) (.error mishap)

theorem higher_by_one (each : List.Forall₂ (Adds die .exploding) values added)
    (eachLower : List.Forall₂ (Adds die .penetrating) values lowered) :
    List.Forall₂ (fun face lower => face.value.val = lower.value.val + 1) added lowered := by
  induction each generalizing lowered with
  | nil =>
      cases eachLower
      exact .nil
  | cons first others ih =>
      cases eachLower with
      | cons firstLower othersLower =>
          refine .cons ?_ (ih othersLower)
          rw [first.2, firstLower.2, if_neg (by decide), if_pos rfl]
          omega

theorem alike_of_shown (shown : Shown die .exploding before plain outcome)
    (shown' : Shown die .penetrating before plain outcome') : Alike before outcome outcome' := by
  cases shown with
  | ok each =>
      cases shown' with
      | ok each' => exact .ok (higher_by_one each each')
  | error mishap =>
      cases shown'
      exact .error mishap

end

end Explosion

namespace Session

open Explosion

variable {σ : Type} {roller : Roller σ} {die : Die} {test : Test}

theorem carry_out_chain (roller : Roller σ) (die : Die) (kind : Explosion.Kind) (test : Test) (patience owed : Nat)
    {thrown : List Whole} {added : List Face} (each : List.Forall₂ (Adds die kind) thrown added) (session : Session σ)
    (past : List Event) :
    let run := carryOut roller (chain die ⟨kind, test⟩ patience owed added) session past
    let plain := carryOut roller (Explosion.values die test patience owed thrown) session past
    Shown die kind [] plain.outcome run.outcome ∧ run.session = plain.session ∧ run.events = plain.events := by
  fun_induction Explosion.values die test patience owed thrown generalizing added session past with
  | case1 patience thrown =>
      rw [Throw.chain_none]
      exact ⟨.ok (List.forall₂_reverse_iff.mpr each), rfl, rfl⟩
  | case2 owed thrown owing =>
      obtain ⟨owed, rfl⟩ := Nat.exists_eq_succ_of_ne_zero owing
      exact ⟨.error _, rfl, rfl⟩
  | case3 patience owed thrown ih =>
      rw [chain]
      cases answer : (session.ask 1).exceeded? with
      | some limit =>
          rw [one_refused answer, one_refused answer]
          exact ⟨.error _, rfl, rfl⟩
      | none =>
          obtain ⟨face, shown⟩ := added_shown kind die (roller.throwOne die session.source).1
          rw [one_granted answer, one_granted answer]
          dsimp only
          rw [shown]
          exact ih _ (.cons (adds_of_added shown) each) _ _

/-- As many throws as are owed at first and earned on the way. -/
def Balanced (roller : Roller σ) (die : Die) (test : Test) (owed : Nat) (source : σ) (count : Nat) : Prop :=
  owed + ((roller.throwMany die count source).1.map die.shown).countP test.accepts = count

/-- One throw is paid with the first, and the value that it shows may earn another. -/
theorem balanced_succ {owed count : Nat} {source : σ} :
    let first := roller.throwOne die source
    Balanced roller die test (owed + 1) source (count + 1) ↔
      Balanced roller die test (if test.accepts (die.shown first.1) then owed + 1 else owed) first.2 count := by
  intro first
  rw [Balanced, Roller.throw_many_succ, List.map_cons, List.countP_cons]
  change owed + 1 + (List.countP _ (List.map _ (roller.throwMany die count first.2).1) +
    if test.accepts (die.shown first.1) = true then 1 else 0) = count + 1 ↔ _
  rw [Balanced]
  split <;> omega

theorem not_balanced_zero {owed : Nat} {source : σ} : ¬Balanced roller die test (owed + 1) source 0 := by
  intro balanced
  unfold Balanced at balanced
  omega

def afterThrows (roller : Roller σ) (die : Die) (count : Nat) (thrown : List Whole) (session : Session σ)
    (past : List Event) : Run σ Mishap (List Whole) :=
  let answers := roller.throwMany die count session.source
  ⟨.ok (thrown.reverse ++ answers.1.map die.shown), session.served count answers.2,
    past.reverse ++ answers.1.map (.threw die)⟩

theorem after_no_throws (roller : Roller σ) (die : Die) (test : Test) (patience : Nat) (thrown : List Whole)
    (session : Session σ) (small : session.asked ≤ 18446744073709551615) (past : List Event) :
    carryOut roller (Explosion.values die test patience 0 thrown) session past =
      afterThrows roller die 0 thrown session past := by
  have none : roller.throwMany die 0 session.source = ([], session.source) := rfl
  simp only [values_none, carryOut, afterThrows, none, served_here session small, List.map_nil, List.append_nil]

theorem after_throws_succ (roller : Roller σ) (die : Die) (count : Nat) (thrown : List Whole) (session : Session σ)
    (past : List Event) :
    let first := roller.throwOne die session.source
    afterThrows roller die (count + 1) thrown session past =
      afterThrows roller die count (die.shown first.1 :: thrown) (session.served 1 first.2)
        (.threw die first.1 :: past) := by
  intro first
  have session' (last : σ) : session.served (count + 1) last = (session.served 1 first.2).served count last := by
    rw [served_served, Nat.add_comm]
  simp only [afterThrows, Roller.throw_many_succ, session', List.map_cons, List.reverse_cons, List.append_assoc,
    List.singleton_append]
  rfl

/-- A run that ends has thrown the least number of dice that is balanced. -/
theorem values_eq_after_throws (patience owed : Nat) (thrown : List Whole) (session : Session σ)
    (small : session.asked ≤ 18446744073709551615) (past : List Event) {result : List Whole}
    (done : (carryOut roller (Explosion.values die test patience owed thrown) session past).outcome = .ok result) :
    ∃ count, Balanced roller die test owed session.source count ∧
      (∀ fewer < count, ¬Balanced roller die test owed session.source fewer) ∧
      carryOut roller (Explosion.values die test patience owed thrown) session past =
        afterThrows roller die count thrown session past := by
  fun_induction Explosion.values die test patience owed thrown generalizing session past with
  | case1 patience thrown =>
      have none := after_no_throws roller die test patience thrown session small past
      rw [values_none] at none
      exact ⟨0, rfl, fun fewer less => absurd less (Nat.not_lt_zero fewer), none⟩
  | case2 => cases done
  | case3 patience owed thrown ih =>
      cases answer : (session.ask 1).exceeded? with
      | some limit =>
          rw [one_refused answer] at done
          cases done
      | none =>
          rw [one_granted answer] at done ⊢
          obtain ⟨count, balanced, least, same⟩ := ih _ _ (served_small _ _ _) _ done
          refine ⟨count + 1, balanced_succ.mpr balanced, ?_, same.trans (after_throws_succ _ _ _ _ _ _).symm⟩
          intro fewer less found
          cases fewer with
          | zero => exact not_balanced_zero found
          | succ fewer => exact least fewer (Nat.lt_of_succ_lt_succ less) (balanced_succ.mp found)

theorem values_end {patience owed count : Nat} (thrown : List Whole) {session : Session σ} (past : List Event)
    (balanced : Balanced roller die test owed session.source count) (enough : count ≤ patience)
    (covered : ∀ limit ∈ session.budget, session.asked + count ≤ limit) :
    ∃ result, (carryOut roller (Explosion.values die test patience owed thrown) session past).outcome = .ok result := by
  fun_induction Explosion.values die test patience owed thrown generalizing session past count with
  | case1 => exact ⟨_, rfl⟩
  | case2 owed thrown owing =>
      obtain ⟨owed, rfl⟩ := Nat.exists_eq_succ_of_ne_zero owing
      rw [Nat.le_zero.mp enough] at balanced
      exact absurd balanced not_balanced_zero
  | case3 patience owed thrown ih =>
      cases count with
      | zero => exact absurd balanced not_balanced_zero
      | succ count =>
          have granted : (session.ask 1).exceeded? = none := by
            apply exceeded_of_le
            intro limit budget
            have fits := covered limit budget
            omega
          rw [one_granted granted]
          apply ih _ _ (balanced_succ.mp balanced) (Nat.le_of_succ_le_succ enough)
          intro limit budget
          have fits := covered limit budget
          rw [asked_served]
          omega

theorem values_not_overflow (patience owed : Nat) (thrown : List Whole) (session : Session σ) (past : List Event) :
    (carryOut roller (Explosion.values die test patience owed thrown) session past).outcome ≠ .error .overflow := by
  fun_induction Explosion.values die test patience owed thrown generalizing session past with
  | case1 | case2 => exact fun overflow => by cases overflow
  | case3 patience owed thrown ih =>
      cases answer : (session.ask 1).exceeded? with
      | some limit =>
          rw [one_refused answer]
          exact fun overflow => by cases overflow
      | none =>
          rw [one_granted answer]
          exact ih _ _ _

theorem carry_out_faces (roller : Roller σ) (die : Die) {kind : Explosion.Kind} (known : kind ≠ .compounded)
    (test : Test) (patience : Nat) (faces : List Face) (session : Session σ) :
    let owed := (faces.map (·.value)).countP test.accepts
    let run := carryOut roller (Explosion.faces patience die ⟨kind, test⟩ faces) session []
    let plain := carryOut roller (Explosion.values die test patience owed []) session []
    Shown die kind faces plain.outcome run.outcome ∧ run.session = plain.session ∧ run.events = plain.events := by
  intro owed run plain
  obtain ⟨shown, last, told⟩ := carry_out_chain roller die kind test patience owed .nil session []
  have behind : run = (carryOut roller (chain die ⟨kind, test⟩ patience owed []) session []).map (faces ++ ·) := by
    rw [← carry_out_map]
    exact congrArg (carryOut roller · session []) (@faces_eq_chain ⟨kind, test⟩ known patience die faces)
  rw [behind]
  exact ⟨shown_behind shown faces, last, told⟩

/-- Exploding and penetrating dice walk through a list of values that grows at its end. Where that ends, as many dice
were thrown as values in the whole list are accepted, and with fewer throws there were never as many. The faces there
were stay in front, those added show the values thrown, or one less, and what they show is not tested. Nothing
overflows, and both kinds throw the same dice. -/
theorem explosion_closed_form (roller : Roller σ) (die : Die) (test : Test) (faces : List Face) (patience : Nat)
    (session : Session σ) (small : session.asked ≤ 18446744073709551615) :
    let run (kind : Explosion.Kind) := carryOut roller (Explosion.faces patience die ⟨kind, test⟩ faces) session []
    let answers (count : Nat) := roller.throwMany die count session.source
    let values (count : Nat) := (answers count).1.map die.shown
    let balanced (count : Nat) := (faces.map (·.value) ++ values count).countP test.accepts = count
    (∀ kind, kind ≠ .compounded →
      Explosion.faces patience die ⟨kind, test⟩ faces = walk die ⟨kind, test⟩ patience (faces.map (·.value)) faces ∧
      (run kind).outcome ≠ .error .overflow ∧
      (∀ result, (run kind).outcome = .ok result → ∃ count added,
        balanced count ∧ (∀ fewer < count, ¬balanced fewer) ∧ List.Forall₂ (Adds die kind) (values count) added ∧
        (run kind).outcome = .ok (faces ++ added) ∧ (run kind).session = session.served count (answers count).2 ∧
        (run kind).events = (answers count).1.map (.threw die)) ∧
      (∀ count ≤ patience, (∀ limit ∈ session.budget, session.asked + count ≤ limit) → balanced count →
        ∃ result, (run kind).outcome = .ok result)) ∧
    Alike faces (run .exploding).outcome (run .penetrating).outcome ∧
      (run .exploding).session = (run .penetrating).session ∧ (run .exploding).events = (run .penetrating).events := by
  intro run answers values balanced
  let owed := (faces.map (·.value)).countP test.accepts
  let plain := carryOut roller (Explosion.values die test patience owed []) session []
  have same (count : Nat) : balanced count ↔ Balanced roller die test owed session.source count := by
    change List.countP _ _ = _ ↔ _
    rw [List.countP_append]
    rfl
  refine ⟨?_, ?_⟩
  · intro kind known
    obtain ⟨shown, last, told⟩ := carry_out_faces roller die known test patience faces session
    refine ⟨@faces_eq_walk ⟨kind, test⟩ known patience die faces, ?_, ?_, ?_⟩
    · intro overflow
      rw [overflow] at shown
      exact values_not_overflow patience owed [] session [] (error_of_shown shown)
    · intro result done
      obtain ⟨drawn, plainly⟩ := (ok_iff_of_shown shown).mp ⟨result, done⟩
      obtain ⟨count, paid, least, after⟩ := values_eq_after_throws patience owed [] session small [] plainly
      rw [after] at shown last told
      obtain ⟨added, each, ended⟩ := added_of_shown shown
      refine ⟨count, added, (same count).mpr paid, ?_, each, ended, last, told⟩
      intro fewer less
      exact mt (same fewer).mp (least fewer less)
    · intro count enough covered paid
      exact (ok_iff_of_shown shown).mpr (values_end [] [] ((same count).mp paid) enough covered)
  · obtain ⟨shown, last, told⟩ := @carry_out_faces σ roller die .exploding (by decide) test patience faces session
    obtain ⟨shown', last', told'⟩ := @carry_out_faces σ roller die .penetrating (by decide) test patience faces session
    exact ⟨alike_of_shown shown shown', last.trans last'.symm, told.trans told'.symm⟩

theorem explosion_closed_form_of_sixes :
    let roller : Roller Nat := ⟨fun _ taken => (if taken = 0 then 6 else 4, taken + 1)⟩
    let die : Die := .standard ⟨6, by decide, by decide⟩
    let six : Whole := ⟨6, by decide, by decide⟩
    let four : Whole := ⟨4, by decide, by decide⟩
    let faces : List Face := [⟨six, "6"⟩, ⟨⟨2, by decide, by decide⟩, "2"⟩]
    let session : Session Nat := start (some 2) 0
    let run := carryOut roller (Explosion.faces 2 die ⟨.penetrating, ⟨.equal, six⟩⟩ faces) session []
    run.outcome = .ok (faces ++ [⟨⟨5, by decide, by decide⟩, "5"⟩, ⟨⟨3, by decide, by decide⟩, "3"⟩]) ∧
      ∃ added, List.Forall₂ (Adds die .penetrating) [six, four] added ∧ run.outcome = .ok (faces ++ added) ∧
        run.events = [.threw die 6, .threw die 4] := by
  intro roller die six four faces session run
  have outcome : (carryOut roller (Explosion.faces 2 die ⟨.penetrating, ⟨.equal, six⟩⟩ faces) session []).outcome =
      .ok (faces ++ [⟨⟨5, by decide, by decide⟩, "5"⟩, ⟨⟨3, by decide, by decide⟩, "3"⟩]) := by cbv
  obtain ⟨each, _⟩ := explosion_closed_form roller die ⟨.equal, six⟩ faces 2 session (by decide)
  obtain ⟨_, _, closed, _⟩ := each .penetrating (by decide)
  obtain ⟨count, added, balanced, least, adds, ended, _, told⟩ := closed _ outcome
  have two : count = 2 := by
    rcases Nat.lt_trichotomy count 2 with less | same | more
    · interval_cases count <;> exact absurd balanced (by decide)
    · exact same
    · exact absurd (by decide) (least 2 more)
  rw [two] at adds told
  exact ⟨outcome, added, adds, ended, told⟩

end Session

end Tabletop
