import Mathlib
import Tabletop.Journal
import Tabletop.Proofs.Roll.Audit
import Tabletop.Proofs.Throw.Yields
import Tabletop.Roller.Tape

/-!
# The journal of an evaluation

An evaluation is recorded as it went: a record for every node that came to a result, each group behind its members, and
then a warning if the budget ran out.
-/

namespace Tabletop

set_option autoImplicit false

namespace Roll

mutual

/-- The nodes of the roll, members from left to right and each group behind its members. -/
def postorder : Roll → List Roll
  | single roll =>
    [single roll]
  | group first others tail combined negative =>
    first.postorder ++ postorderAll others ++ [group first others tail combined negative]

def postorderAll : List Roll → List Roll
  | [] =>
    []
  | member :: others =>
    member.postorder ++ postorderAll others

end

/-- Without the dice that are not thrown at all. -/
def busy (nodes : List Roll) : List Roll := nodes.filter fun node => !node.isIdle

theorem busy_append (nodes more : List Roll) : busy (nodes ++ more) = busy nodes ++ busy more :=
  List.filter_append _ _

theorem busy_postorder_idle {single : Single} (zero : single.count = 0) : busy (Roll.single single).postorder = [] := by
  have idle : ¬(!(Roll.single single).isIdle) = true := by simp [idle_of_count zero]
  exact List.filter_cons_of_neg idle

theorem busy_postorder_single {single : Single} (nonzero : single.count ≠ 0) :
    busy (Roll.single single).postorder = [.single single] := by
  have thrown : (!(Roll.single single).isIdle) = true := by simp [not_idle nonzero]
  exact List.filter_cons_of_pos thrown

theorem busy_postorder_group (first : Roll) (others : List Roll) (tail : Tail) (combined negative : Bool) :
    busy (group first others tail combined negative).postorder =
      busy (postorderAll (first :: others)) ++ [group first others tail combined negative] := by
  rw [postorder, busy_append, postorderAll]
  rfl

end Roll

namespace Session

variable {σ α β : Type} {roller : Roller σ} {patience : Nat}

def attempt (roller : Roller σ) (patience : Nat) (roll : Roll) (session : Session σ) : Run σ Mishap Result :=
  carryOut roller (roll.throw patience) session []

def own (roll : Roll) (run : Run σ Mishap Result) : List (Roll × Result) :=
  match run.outcome with
  | .ok result => if roll.isIdle then [] else [(roll, result)]
  | .error _ => []

/-- The session in which a group goes on behind a member. It does not where the member has no result or where its faces
cannot be pooled. -/
def behind? (combined : Bool) (member : Roll) (run : Run σ Mishap Result) : Option (Session σ) :=
  match run.outcome with
  | .ok result => (member.contribution? combined result).map fun _ => run.session
  | .error _ => none

mutual

/-- The nodes whose own evaluation comes to a result, each with that result, in the order in which this happens. -/
def completed (roller : Roller σ) (patience : Nat) : Roll → Session σ → List (Roll × Result)
  | .single single, session =>
    own (.single single) (attempt roller patience (.single single) session)
  | .group first others tail combined negative, session =>
    completed roller patience first session ++
      (match behind? combined first (attempt roller patience first session) with
        | some later => completedOthers roller patience combined others later
        | none => []) ++
      own (.group first others tail combined negative)
        (attempt roller patience (.group first others tail combined negative) session)

def completedOthers (roller : Roller σ) (patience : Nat) (combined : Bool) :
    List Roll → Session σ → List (Roll × Result)
  | [], _ =>
    []
  | member :: others, session =>
    completed roller patience member session ++
      (match behind? combined member (attempt roller patience member session) with
        | some later => completedOthers roller patience combined others later
        | none => [])

end

/-- The nodes inside a group are completed before it, as those of members like any other. -/
theorem completed_group (first : Roll) (others : List Roll) (tail : Tail) (combined negative : Bool)
    (session : Session σ) :
    completed roller patience (.group first others tail combined negative) session =
      completedOthers roller patience combined (first :: others) session ++
        own (.group first others tail combined negative)
          (attempt roller patience (.group first others tail combined negative) session) := by
  rw [completed, completedOthers]

def note? : Event → Option (Roll × Result)
  | .rolled roll result => some (roll, result)
  | .threw _ _ => none
  | .exhausted _ => none

def notes (events : List Event) : List (Roll × Result) := events.filterMap note?

theorem notes_append (events more : List Event) : notes (events ++ more) = notes events ++ notes more :=
  List.filterMap_append

theorem notes_followed_by (run : Run σ Mishap α) (next : α → Session σ → Run σ Mishap β) :
    notes (run.followedBy next).events = notes run.events ++
      match run.outcome with
      | .ok value => notes (next value run.session).events
      | .error _ => [] := by
  obtain ⟨outcome, session, events⟩ := run
  cases outcome with
  | ok value => exact notes_append _ _
  | error mishap => exact (List.append_nil _).symm

theorem notes_faces (single : Single) (session : Session σ) :
    notes (carryOut roller (single.faces patience) session []).events = [] := by
  have quiet : (carryOut roller (single.faces patience) session []).Yields (fun _ _ => False)
      fun faces => ∀ face ∈ faces, single.Shows face :=
    fresh_yields (Throw.faces_shown single patience) session
  apply List.filterMap_eq_nil_iff.mpr
  intro event found
  cases event with
  | threw die number => rfl
  | exhausted limit => rfl
  | rolled roll result => exact (quiet.events roll result found).elim

theorem notes_complete (throw : Throw α) {roll : Roll} (thrown : roll.isIdle = false) (value : α → Option Result)
    (session : Session σ) :
    notes (carryOut roller (throw >>= fun faces => .complete roll (value faces)) session []).events =
      notes (carryOut roller throw session []).events ++
        own roll (carryOut roller (throw >>= fun faces => .complete roll (value faces)) session []) := by
  rw [carry_out_bind, notes_followed_by, own, Run.followedBy]
  congr 1
  cases (carryOut roller throw session []).outcome with
  | error mishap => rfl
  | ok faces =>
      dsimp only
      cases value faces with
      | none => rfl
      | some result =>
          change [(roll, result)] = if roll.isIdle then [] else [(roll, result)]
          rw [thrown, if_neg Bool.false_ne_true]

theorem notes_others {combined : Bool} {others : List Roll}
    (each : ∀ member ∈ others, ∀ session,
      notes (attempt roller patience member session).events = completed roller patience member session)
    (pool : List Face) (session : Session σ) :
    notes (carryOut roller (Roll.throwOthers patience combined others pool) session []).events =
      completedOthers roller patience combined others session := by
  induction others generalizing pool session with
  | nil => rfl
  | cons member others ih =>
      obtain ⟨ofMember, ofOthers⟩ := List.forall_mem_cons.mp each
      rw [Roll.throwOthers, carry_out_bind, notes_followed_by, completedOthers, ← ofMember, behind?, attempt]
      congr 1
      cases (carryOut roller (member.throw patience) session []).outcome with
      | error mishap => rfl
      | ok result =>
          dsimp only
          cases member.contribution? combined result with
          | none => rfl
          | some faces => exact ih ofOthers _ _

theorem notes_attempt (roll : Roll) (session : Session σ) :
    notes (attempt roller patience roll session).events = completed roller patience roll session := by
  induction roll using Roll.members_induction generalizing session with
  | single single =>
      rw [completed, attempt, Roll.throw, Single.throw]
      split
      · change [] = if (Roll.single single).isIdle then [] else _
        rw [if_pos (Roll.idle_of_count ‹_›)]
      · rw [notes_complete _ (Roll.not_idle ‹_›), notes_faces, List.nil_append]
  | group first others tail combined negative ih =>
      rw [completed_group, attempt, Roll.throw_group, notes_complete _ rfl, notes_others ih]

/-- The run notes these nodes, in order: all of them if it has a value, and otherwise the first of them. -/
structure InOrder (nodes : List Roll) (run : Run σ Mishap α) : Prop where
  all : ∀ value, run.outcome = .ok value → (notes run.events).map Prod.fst = nodes
  first : (notes run.events).map Prod.fst <+: nodes

theorem in_order_checked (value : Option α) (session : Session σ) :
    InOrder [] (carryOut roller (.checked value) session []) := by
  cases value with
  | none => exact ⟨fun _ _ => rfl, List.prefix_rfl⟩
  | some value => exact ⟨fun _ _ => rfl, List.prefix_rfl⟩

theorem in_order_complete (roll : Roll) (value : Option Result) (session : Session σ) :
    InOrder [roll] (carryOut roller (.complete roll value) session []) := by
  cases value with
  | none => exact ⟨(fun _ same => nomatch same), List.nil_prefix⟩
  | some value => exact ⟨fun _ _ => rfl, List.prefix_rfl⟩

theorem in_order_bind {nodes more : List Roll} {throw : Throw α} {f : α → Throw β} {session : Session σ}
    (before : InOrder nodes (carryOut roller throw session []))
    (after : ∀ value later, InOrder more (carryOut roller (f value) later [])) :
    InOrder (nodes ++ more) (carryOut roller (throw >>= f) session []) := by
  rw [carry_out_bind]
  generalize carryOut roller throw session [] = run at before
  obtain ⟨outcome, later, events⟩ := run
  cases outcome with
  | error mishap =>
      refine ⟨(fun _ same => nomatch same), ?_⟩
      exact before.first.trans (List.prefix_append nodes more)
  | ok value =>
      have noted : (notes events).map Prod.fst = nodes := before.all value rfl
      obtain ⟨all, first⟩ := after value later
      refine ⟨?_, ?_⟩
      · intro last same
        rw [notes_followed_by, List.map_append, noted]
        exact congrArg (nodes ++ ·) (all last same)
      · rw [notes_followed_by, List.map_append, noted]
        exact (List.prefix_append_right_inj nodes).mpr first

theorem in_order_others {combined : Bool} {others : List Roll}
    (each : ∀ member ∈ others, ∀ session,
      InOrder (Roll.busy member.postorder) (attempt roller patience member session))
    (pool : List Face) (session : Session σ) :
    InOrder (Roll.busy (Roll.postorderAll others))
      (carryOut roller (Roll.throwOthers patience combined others pool) session []) := by
  induction others generalizing pool session with
  | nil => exact ⟨fun _ _ => rfl, List.prefix_rfl⟩
  | cons member others ih =>
      obtain ⟨ofMember, ofOthers⟩ := List.forall_mem_cons.mp each
      rw [Roll.postorderAll, Roll.busy_append, Roll.throwOthers]
      apply in_order_bind (ofMember session)
      intro result later
      apply in_order_bind (in_order_checked _ later)
      intro faces later
      exact ih ofOthers _ _

theorem in_order_faces (single : Single) (session : Session σ) :
    InOrder [] (carryOut roller (single.faces patience) session []) := by
  have none : (notes (carryOut roller (single.faces patience) session []).events).map Prod.fst = [] :=
    congrArg (List.map Prod.fst) (notes_faces single session)
  exact ⟨fun _ _ => none, none ▸ List.prefix_rfl⟩

/-- An evaluation notes the nodes in postorder, as far as it gets. -/
theorem in_order_attempt (roll : Roll) (session : Session σ) :
    InOrder (Roll.busy roll.postorder) (attempt roller patience roll session) := by
  induction roll using Roll.members_induction generalizing session with
  | single single =>
      rw [attempt, Roll.throw, Single.throw]
      split
      · rw [Roll.busy_postorder_idle ‹_›]
        exact ⟨fun _ _ => rfl, List.prefix_rfl⟩
      · rw [Roll.busy_postorder_single ‹_›]
        apply in_order_bind (in_order_faces single session)
        intro faces later
        exact in_order_complete _ _ later
  | group first others tail combined negative ih =>
      rw [attempt, Roll.throw_group, Roll.busy_postorder_group]
      apply in_order_bind (in_order_others ih [] session)
      intro faces later
      exact in_order_complete _ _ later

theorem ok_of_complete {nodes : List Roll} {throw : Throw α} {roll : Roll} {value : α → Option Result}
    {session : Session σ} {run : Run σ Mishap Result} (thrown : roll.isIdle = false)
    (before : InOrder nodes (carryOut roller throw session []))
    (done : carryOut roller (throw >>= fun faces => .complete roll (value faces)) session [] = run)
    (all : (notes run.events).map Prod.fst = nodes ++ [roll]) : ∃ result, run.outcome = .ok result := by
  subst done
  rw [notes_complete _ thrown, own, List.map_append] at all
  split at all
  · exact ⟨_, ‹_›⟩
  · -- without its own note the run tells no more than the throw did, and that is one node short
    have le := before.first.length_le
    rw [List.map_nil, List.append_nil] at all
    rw [all, List.length_append, List.length_singleton] at le
    omega

theorem ok_of_all (roll : Roll) (session : Session σ)
    (all : (notes (attempt roller patience roll session).events).map Prod.fst = Roll.busy roll.postorder) :
    ∃ result, (attempt roller patience roll session).outcome = .ok result := by
  cases roll with
  | single single =>
      rw [attempt, Roll.throw, Single.throw] at all ⊢
      split at all
      · rw [if_pos ‹_›]
        exact ⟨.empty, rfl⟩
      · rw [if_neg ‹_›]
        rw [Roll.busy_postorder_single ‹_›] at all
        exact ok_of_complete (Roll.not_idle ‹_›) (in_order_faces single session) rfl all
  | group first others tail combined negative =>
      rw [attempt, Roll.throw_group] at all ⊢
      rw [Roll.busy_postorder_group] at all
      exact ok_of_complete rfl (in_order_others (fun member _ => in_order_attempt member) [] session) rfl all

def refusals : Except Mishap α → List Event
  | .error (.tooManyRolls limit) => [.exhausted limit]
  | _ => []

theorem refusals_eq_nil {outcome : Except Mishap α} (kept : ∀ bound, outcome ≠ .error (.tooManyRolls bound)) :
    refusals outcome = [] := by
  unfold refusals
  split
  · exact absurd rfl (kept _)
  · rfl

theorem exhausted_last (roller : Roller σ) (throw : Throw α) (session : Session σ) :
    ∃ events, (carryOut roller throw session []).events =
        events ++ refusals (carryOut roller throw session []).outcome ∧ ∀ limit, .exhausted limit ∉ events := by
  refine carry_out_induction (motive := fun _ past run => (∀ limit, .exhausted limit ∉ past) →
    ∃ events, run.events = events ++ refusals run.outcome ∧ ∀ limit, .exhausted limit ∉ events)
    ?_ ?_ ?_ ?_ throw session [] fun _ found => nomatch found
  · intro session past outcome kept clean
    refine ⟨past.reverse, ?_, fun limit found => clean limit (List.mem_reverse.mp found)⟩
    rw [refusals_eq_nil kept, List.append_nil]
  · intro session past count bound _ clean
    exact ⟨past.reverse, List.reverse_cons, fun limit found => clean limit (List.mem_reverse.mp found)⟩
  · intro session past die numbers source run _ _ ih clean
    refine ih fun limit found => ?_
    rcases List.mem_append.mp found with drawn | found
    · obtain ⟨number, -, same⟩ := List.mem_map.mp drawn
      cases same
    · exact clean limit found
  · intro session past roll result run ih clean
    refine ih fun limit found => ?_
    rcases List.mem_cons.mp found with same | found
    · cases same
    · exact clean limit found

end Session

namespace Journal

def ofCompleted (node : Roll × Result) : Record :=
  ⟨.debug, "rolled ".toList ++ node.1.canonical ++ " => ".toList ++ resultText node.2⟩

def warnings {α : Type} : Except Mishap α → List Record
  | .error (.tooManyRolls limit) =>
    [⟨.warn, "roll budget of ".toList ++ Decimal.digits limit ++ " draws exhausted".toList⟩]
  | _ => []

theorem of_refusals {α : Type} (outcome : Except Mishap α) :
    (Session.refusals outcome).filterMap ofEvent? = warnings outcome := by
  unfold Session.refusals warnings
  split <;> rfl

theorem of_clean {events : List Event} (clean : ∀ limit, .exhausted limit ∉ events) :
    events.filterMap ofEvent? = (Session.notes events).map ofCompleted := by
  induction events with
  | nil => rfl
  | cons event events ih =>
      have rest := ih fun limit found => clean limit (List.mem_cons_of_mem _ found)
      cases event with
      | threw die number => exact rest
      | rolled roll result => exact congrArg (ofCompleted (roll, result) :: ·) rest
      | exhausted limit => exact absurd List.mem_cons_self (clean limit)

end Journal

namespace Session

variable {σ : Type}

theorem notes_refusals {α : Type} (outcome : Except Mishap α) : notes (refusals outcome) = [] := by
  unfold refusals
  split <;> rfl

theorem records_attempt (roller : Roller σ) (patience : Nat) (roll : Roll) (session : Session σ) :
    (attempt roller patience roll session).events.filterMap Journal.ofEvent? =
      (completed roller patience roll session).map Journal.ofCompleted ++
        Journal.warnings (attempt roller patience roll session).outcome := by
  obtain ⟨events, ends, clean⟩ := exhausted_last roller (roll.throw patience) session
  rw [← notes_attempt, attempt, ends, notes_append, notes_refusals, List.append_nil, List.filterMap_append,
    Journal.of_refusals, Journal.of_clean clean]

/-- The journal of an evaluation tells the truth. There is a record for each node that came to a result of its own, in
the order in which they did, and then one warning if the budget ran out and none if it did not. These nodes are the
first of those that are thrown, in postorder, and all of them if and only if the evaluation has a result. What is
recorded of a notation are its marks and then this. -/
theorem evaluate_recorded (roller : Roller σ) (patience : Nat) (roll : Roll) (session : Session σ) :
    let run := attempt roller patience roll session
    let nodes := completed roller patience roll session
    run.events.filterMap Journal.ofEvent? = nodes.map Journal.ofCompleted ++ Journal.warnings run.outcome ∧
      nodes.map Prod.fst <+: Roll.busy roll.postorder ∧
      (nodes.map Prod.fst = Roll.busy roll.postorder ↔ ∃ result, run.outcome = .ok result) ∧
      ∀ text, Notation.parse text = .ok roll → patience = session.patience →
        Journal.ofReport roller text.toList session = (Notation.trail text.toList).map Journal.ofMark ++
          (nodes.map Journal.ofCompleted ++ Journal.warnings run.outcome) := by
  intro run nodes
  have records := records_attempt roller patience roll session
  have inOrder : InOrder (Roll.busy roll.postorder) run := in_order_attempt roll session
  have noted : notes run.events = nodes := notes_attempt roll session
  refine ⟨records, noted ▸ inOrder.first, ⟨?_, ?_⟩, ?_⟩
  · intro all
    exact ok_of_all roll session (noted.symm ▸ all)
  · intro ⟨result, outcome⟩
    exact noted ▸ inOrder.all result outcome
  · intro text parsed same
    have read : Notation.read text.toList = .ok roll := parsed
    have events : (session.report roller text.toList).events = run.events := by
      subst same
      rw [report, read]
      rfl
    rw [Journal.ofReport, events, ← records]

/-- The budget ends at the third member. Its dice and the group around them are missing, and so are the dice that are
not thrown. -/
theorem evaluate_recorded_exhausted :
    let session := start (some 2) (Tape.ofList [5])
    let text := "\x7bd6+\x7b0d6\x7d+2d6\x7d"
    Journal.ofReport Roller.scripted text.toList session = (Notation.trail text.toList).map Journal.ofMark ++
      [⟨.debug, ("rolled d6 => RollResult \x7b rolls: [DieRoll \x7b value: 5, symbol: \"5\" \x7d], total: 5, " ++
          "successes: 0 \x7d").toList⟩,
        ⟨.debug, "rolled \x7b0d6\x7d => RollResult \x7b rolls: [], total: 0, successes: 0 \x7d".toList⟩,
        ⟨.warn, "roll budget of 2 draws exhausted".toList⟩] := by
  intro session text
  let dice (count : Whole) : Roll := .single (.plain count (.standard ⟨6, by decide, by decide⟩))
  let roll : Roll := .group (dice .one)
    [.group (dice .zero) [] .plain true false, dice ⟨2, by decide, by decide⟩] .plain true false
  have parsed : Notation.parse text = .ok roll := by cbv
  obtain ⟨-, -, -, recorded⟩ := evaluate_recorded Roller.scripted session.patience roll session
  rw [recorded text parsed rfl]
  refine congrArg (_ ++ ·) ?_
  decide +kernel

end Session

end Tabletop
