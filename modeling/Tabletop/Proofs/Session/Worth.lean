import Tabletop.Proofs.Session.Arrangement
import Tabletop.Proofs.Session.Budget

/-!
# What one exploding die is worth

Exploding dice show every throw that they have earned, compounded dice only the sum of them. On one die both make the
same throws. A compounded die adds them up at once and may overflow long before the last one; an exploding die adds
them up at the end, but then to no less, because none of them is negative.
-/

namespace Tabletop

set_option autoImplicit false

/-- Both runs have a result, with the same total and in the same session behind it, or neither has one. -/
structure Run.WorthAlike {σ : Type} (run run' : Run σ Mishap Result) : Prop where
  succeeds : (∃ result, run.outcome = .ok result) ↔ ∃ result, run'.outcome = .ok result
  same : ∀ result result', run.outcome = .ok result → run'.outcome = .ok result' →
    result'.total = result.total ∧ run'.session = run.session

/-- Both runs come to the same weight in the same session, or neither comes to a value; but the second one may also
stop where the first one has become too heavy for a whole number. -/
inductive Run.Balances {σ α β : Type} (weight : α → Int) (weight' : β → Int) (run : Run σ Mishap α)
    (run' : Run σ Mishap β) : Prop where
  | both {value : α} {value' : β} (came : run.outcome = .ok value) (came' : run'.outcome = .ok value')
      (session : run'.session = run.session) (same : weight' value' = weight value)
  | beyond {value : α} {mishap : Mishap} (came : run.outcome = .ok value) (stopped : run'.outcome = .error mishap)
      (heavy : 2147483647 < weight value)
  | neither {mishap mishap' : Mishap} (stopped : run.outcome = .error mishap)
      (stopped' : run'.outcome = .error mishap')

structure Run.SumsUp {σ : Type} (tail : Tail) (negative : Bool) (order : Order) (thrown : Run σ Mishap (List Face))
    (run : Run σ Mishap Result) : Prop where
  session : run.session = thrown.session
  stopped : ∀ mishap, thrown.outcome = .error mishap → run.outcome = .error mishap
  unsigned : ∀ faces, thrown.outcome = .ok faces → Tail.Unsigned faces
  summed : ∀ faces, thrown.outcome = .ok faces →
    run.outcome = Session.orOverflow ((tail.total? negative faces).map fun total => ⟨order.apply faces, total, .zero⟩)

namespace Tail

variable {tail : Tail} {faces : List Face}

theorem total_eq_none (heavy : 2147483647 < sum faces) (negative : Bool) : tail.total? negative faces = none := by
  unfold total?
  cases summed : faces.foldlM (fun sum face => sum.add? face.value) Whole.zero with
  | none => rfl
  | some total =>
      have reached : total.val = 0 + sum faces := (fold_sum summed).1
      have high := total.high
      omega

end Tail

namespace Explosion

variable {die : Die} {test : Test} {patience : Nat} {face : Face}

theorem faces_refused (kind : Explosion.Kind) (refused : test.accepts face.value = false) :
    faces patience die ⟨kind, test⟩ [face] = .done [face] := by
  have none : [face].filter (fun face => test.accepts face.value) = [] := by simp [refused]
  unfold faces
  simp only [none, List.mapM_nil, List.length_nil, Throw.chain_none]
  cases kind <;> rfl

theorem faces_exploding (accepted : test.accepts face.value = true) :
    faces patience die ⟨.exploding, test⟩ [face] =
      (face :: ·) <$> chain die ⟨.exploding, test⟩ patience 1 [] := by
  have matching : [face].filter (fun face => test.accepts face.value) = [face] := by simp [accepted]
  unfold faces
  simp only [matching]
  rfl

theorem faces_compounded (accepted : test.accepts face.value = true) :
    faces patience die ⟨.compounded, test⟩ [face] =
      (fun sum => [face, .synthetic sum]) <$> compound die test patience .zero := by
  have matching : [face].filter (fun face => test.accepts face.value) = [face] := by simp [accepted]
  unfold faces
  simp only [matching, List.mapM_cons, List.mapM_nil, bind_assoc, pure_bind, map_eq_pure_bind]
  rfl

end Explosion

theorem Throw.chain_grows {die : Die} {sides : Sides} (standard : die = .standard sides) (explosion : Explosion)
    (patience owed : Nat) (added : List Face) :
    (explosion.chain die patience owed added).Gives fun faces => Tail.sum added ≤ Tail.sum faces := by
  have keeps (face : Face) (faces : List Face) (nonneg : 0 ≤ face.value.val)
      (before : Tail.sum added ≤ Tail.sum faces) : Tail.sum added ≤ Tail.sum (face :: faces) := by
    rw [Tail.sum_cons]
    omega
  apply gives_mono (chain_keeps standard explosion patience owed keeps (Int.le_refl _))
  intro faces grown
  rwa [Tail.sum_perm faces.reverse_perm] at grown

namespace Run.Balances

variable {σ α β γ δ : Type} {weight : α → Int} {weight' : β → Int} {run : Run σ Mishap α} {run' : Run σ Mishap β}

theorem map {more : γ → Int} {more' : δ → Int} {f : α → γ} {g : β → δ} {extra : Int} (nonneg : 0 ≤ extra)
    (behind : ∀ value, more (f value) = extra + weight value)
    (behind' : ∀ value, more' (g value) = extra + weight' value) (balances : Balances weight weight' run run') :
    Balances more more' (run.map f) (run'.map g) := by
  cases balances with
  | @both value value' came came' session same =>
      refine .both (congrArg (Except.map f) came) (congrArg (Except.map g) came') session ?_
      rw [behind, behind', same]
  | @beyond value mishap came stopped heavy =>
      refine .beyond (congrArg (Except.map f) came) (congrArg (Except.map g) stopped) ?_
      rw [behind]
      omega
  | neither stopped stopped' =>
      exact .neither (congrArg (Except.map f) stopped) (congrArg (Except.map g) stopped')

theorem worth_alike {tail : Tail} {negative : Bool} {order : Order} {thrown thrown' : Run σ Mishap (List Face)}
    {run run' : Run σ Mishap Result} (balances : Balances Tail.sum Tail.sum thrown thrown')
    (sums : SumsUp tail negative order thrown run) (sums' : SumsUp tail negative order thrown' run') :
    WorthAlike run run' := by
  cases balances with
  | @both faces faces' came came' session same =>
      have done := sums.summed faces came
      have done' := sums'.summed faces' came'
      have left : run'.session = run.session := sums'.session.trans (session.trans sums.session.symm)
      rw [Tail.total_congr (sums'.unsigned faces' came') (sums.unsigned faces came) same] at done'
      cases reached : tail.total? negative faces with
      | none =>
          rw [reached] at done done'
          constructor <;> simp [done, done', Session.orOverflow]
      | some total =>
          rw [reached] at done done'
          constructor <;> simp [done, done', Session.orOverflow, left]
  | @beyond faces mishap came stopped heavy =>
      have done := sums.summed faces came
      rw [Tail.total_eq_none heavy] at done
      constructor <;> simp [done, sums'.stopped mishap stopped, Session.orOverflow]
  | @neither mishap mishap' stopped stopped' =>
      constructor <;> simp [sums.stopped mishap stopped, sums'.stopped mishap' stopped']

end Run.Balances

namespace Session

variable {σ : Type} {roller : Roller σ} {die : Die} {sides : Sides}

/-- Throw by throw, a die that explodes and one that is compounded do the same, until the sum overflows. -/
theorem chain_balances (standard : die = .standard sides) (test : Test) (patience : Nat) {added : List Face}
    {sum : Whole} (same : sum.val = Tail.sum added) (session : Session σ) (past past' : List Event) :
    Run.Balances Tail.sum Whole.val
      (carryOut roller (Explosion.chain die ⟨.exploding, test⟩ patience 1 added) session past)
      (carryOut roller (Explosion.compound die test patience sum) session past') := by
  induction patience generalizing added sum session past past' with
  | zero => exact .neither rfl rfl
  | succ patience ih =>
      cases answer : (session.ask 1).exceeded? with
      | some limit =>
          rw [Explosion.chain, Explosion.compound, one_refused answer, one_refused answer]
          exact .neither rfl rfl
      | none =>
          rw [Explosion.chain, Explosion.compound, one_granted answer, one_granted answer]
          have can := roller.can_show_one die session.source
          generalize die.shown (roller.throwOne die session.source).1 = value at can ⊢
          have grown : Tail.sum (die.face value :: added) = sum.val + value.val := by
            rw [Tail.sum_cons, same, Int.add_comm]
            rfl
          simp only [Explosion.added?]
          cases next : sum.add? value with
          | none =>
              -- From here on the exploding die is too heavy, if it comes to an end at all.
              have heavy : 2147483647 < Tail.sum (die.face value :: added) := by
                have range := Whole.ofInt?_eq_none.mp next
                have low := sum.low
                have pos := Throw.pos_of_can_show standard can
                omega
              generalize ended : carryOut roller (Explosion.chain _ _ _ _ _) _ _ = run
              cases came : run.outcome with
              | error mishap => exact .neither came rfl
              | ok faces =>
                  refine .beyond came rfl (Int.lt_of_lt_of_le heavy ?_)
                  rw [← ended] at came
                  exact carry_out_gives (Throw.chain_grows standard _ patience _ _) _ _ came
          | some total =>
              have reached : total.val = Tail.sum (die.face value :: added) := by
                rw [grown]
                exact Whole.add_eq_some.mp next
              cases accepted : test.accepts value with
              | true => exact ih reached _ _ _
              | false =>
                  simp only [Bool.false_eq_true, if_false, Throw.chain_none]
                  refine .both rfl rfl rfl ?_
                  rw [reached, Tail.sum_perm (List.reverse_perm _)]

theorem explosion_balances (standard : die = .standard sides) (test : Test) (patience : Nat) {face : Face}
    (unsigned : 0 ≤ face.value.val) (session : Session σ) (past past' : List Event) :
    Run.Balances Tail.sum Tail.sum
      (carryOut roller (Explosion.faces patience die ⟨.exploding, test⟩ [face]) session past)
      (carryOut roller (Explosion.faces patience die ⟨.compounded, test⟩ [face]) session past') := by
  cases accepted : test.accepts face.value with
  | false =>
      rw [Explosion.faces_refused _ accepted, Explosion.faces_refused _ accepted]
      exact .both rfl rfl rfl rfl
  | true =>
      rw [Explosion.faces_exploding accepted, Explosion.faces_compounded accepted, carry_out_map, carry_out_map]
      refine Run.Balances.map unsigned (fun _ => Tail.sum_cons face _) (fun sum => ?_)
        (chain_balances standard test patience rfl session past past')
      rw [Tail.sum_cons, Tail.sum_cons]
      exact congrArg (face.value.val + ·) (Int.add_zero _)

variable {single : Single}

theorem faces_balance (roller : Roller σ) (standard : single.die = .standard sides) (one : single.count = 1)
    (test : Test) (patience : Nat) (session : Session σ) :
    let run (kind : Explosion.Kind) :=
      carryOut roller ({ single with exploding := some ⟨kind, test⟩ }.faces patience) session []
    Run.Balances Tail.sum Tail.sum (run .exploding) (run .compounded) := by
  intro run
  let redrawn := carryOut roller (single.redrawn patience) session []
  have split (kind : Explosion.Kind) : run kind = redrawn.followedBy fun faces later =>
      carryOut roller (Explosion.faces patience single.die ⟨kind, test⟩ faces) later [] := by
    simp only [run, Single.faces_eq_redrawn, carry_out_bind]
    rfl
  rw [split, split, Run.followedBy, Run.followedBy]
  cases came : redrawn.outcome with
  | error mishap => exact .neither rfl rfl
  | ok faces =>
      have table : Single.Table single.count faces :=
        carry_out_gives (Throw.redrawn_gives standard patience) session [] came
      obtain ⟨face, rfl⟩ := List.length_eq_one_iff.mp (table.length.trans one)
      have unsigned : 0 ≤ face.value.val := table.unsigned face (List.mem_singleton_self face)
      cases explosion_balances standard test patience unsigned redrawn.session [] [] with
      | both came came' session same => exact .both came came' session same
      | beyond came stopped heavy => exact .beyond came stopped heavy
      | neither stopped stopped' => exact .neither stopped stopped'

theorem carry_out_sums_up (roller : Roller σ) (single : Single) (standard : single.die = .standard sides)
    (throws : single.count ≠ 0) (whole : single.tail.limit = none) (sums : single.tail.counts = false) (patience : Nat)
    (session : Session σ) :
    Run.SumsUp single.tail single.multiplier.isNegative single.order
      (carryOut roller (single.faces patience) session [])
      (carryOut roller ((Roll.single single).throw patience) session []) := by
  obtain ⟨left, scored⟩ := carry_out_single roller single throws patience session
  have unsigned (faces : List Face)
      (came : (carryOut roller (single.faces patience) session []).outcome = .ok faces) : Tail.Unsigned faces :=
    carry_out_gives (Throw.faces_gives standard patience) session [] came
  refine ⟨left, fun mishap stopped => ?_, unsigned, fun faces came => ?_⟩
  · rw [scored, stopped]
    rfl
  · rw [scored, came]
    simp only [Except.bind, Tail.limited, whole]
    rw [Tail.score_arranged (unsigned faces came), Tail.score?, sums, if_neg Bool.false_ne_true, Option.map_map]
    rfl

/-- A standard die that is thrown alone, under either sign, is worth the same whether it explodes or is compounded: both
have a result or neither has, and then they have the same total, have asked for as many throws and leave the source
alike. Under a budget that the counter can exceed, both evaluations end. -/
theorem evaluate_worth_alike (roller : Roller σ) {multiplier : Whole} (alone : multiplier.val = 1 ∨ multiplier.val = -1)
    (sides : Sides) (rerolls : List Reroll) (test : Test) (order : Order) (modifier : Whole) :
    let roll (kind : Explosion.Kind) : Roll :=
      .single ⟨multiplier, .standard sides, rerolls, some ⟨kind, test⟩, order, ⟨modifier, none, none, none⟩⟩
    (∀ session : Session σ,
        (evaluate roller (roll .exploding) session).WorthAlike (evaluate roller (roll .compounded) session)) ∧
      ∀ limit source, limit < 18446744073709551615 → ∀ kind,
        Ends roller (roll kind) (start (some limit) source)
          (evaluate roller (roll kind) (start (some limit) source)) := by
  intro roll
  refine ⟨fun session => ?_, fun limit source small kind => evaluate_ends roller (roll kind) source small⟩
  let single : Single := ⟨multiplier, .standard sides, rerolls, none, order, ⟨modifier, none, none, none⟩⟩
  have one : single.count = 1 := by
    rcases alone with plus | minus
    · exact congrArg Int.natAbs plus
    · exact congrArg Int.natAbs minus
  have sums (kind : Explosion.Kind) :=
    carry_out_sums_up roller { single with exploding := some ⟨kind, test⟩ } rfl (one ▸ Nat.one_ne_zero) rfl rfl
      session.patience session
  have standard : single.die = .standard sides := rfl
  exact (faces_balance roller standard one test session.patience session).worth_alike (sums .exploding)
    (sums .compounded)

theorem evaluate_worth_alike_negative :
    let minus : Whole := .minusOne
    let six : Whole := ⟨6, by decide, by decide⟩
    let sides : Sides := ⟨6, by decide, by decide⟩
    let rerolls : List Reroll := [⟨⟨.equal, .one⟩, true⟩]
    let modifier : Whole := ⟨2, by decide, by decide⟩
    let tail : Tail := ⟨modifier, none, none, none⟩
    let exploding : Roll := .single ⟨minus, .standard sides, rerolls, some ⟨.exploding, ⟨.equal, six⟩⟩, .unsorted, tail⟩
    let compounded : Roll :=
      .single ⟨minus, .standard sides, rerolls, some ⟨.compounded, ⟨.equal, six⟩⟩, .unsorted, tail⟩
    let session := start (some 4) (.ofList [1, 6, 6, 3])
    let three : Whole := ⟨3, by decide, by decide⟩
    let nine : Whole := ⟨9, by decide, by decide⟩
    let total : Whole := ⟨-17, by decide, by decide⟩
    (evaluate Roller.scripted exploding session).outcome =
        .ok ⟨[⟨six, "6"⟩, ⟨six, "6"⟩, ⟨three, "3"⟩], total, .zero⟩ ∧
      (evaluate Roller.scripted compounded session).outcome = .ok ⟨[⟨six, "6"⟩, ⟨nine, "9"⟩], total, .zero⟩ ∧
      (evaluate Roller.scripted exploding session).WorthAlike (evaluate Roller.scripted compounded session) ∧
      Ends Roller.scripted compounded session (evaluate Roller.scripted compounded session) := by
  intro minus six sides rerolls modifier tail exploding compounded session three nine total
  have alone : minus.val = 1 ∨ minus.val = -1 := .inr rfl
  have alike := evaluate_worth_alike Roller.scripted alone sides rerolls ⟨.equal, six⟩ .unsorted modifier
  exact ⟨by cbv, by cbv, alike.1 session, alike.2 4 _ (by decide) .compounded⟩

end Session

end Tabletop
