import Tabletop.Proofs.Roll.Audit
import Tabletop.Proofs.Session.Symbols
import Tabletop.Proofs.Throw.Alongside

/-!
# Nested groups spliced in

A combined group inside another one, without limit, tests and modifier, only passes its faces on. Its members can stand
in its place, each with the opposite sign if the group counted against the others. Faces that are negated on both levels
come out as they were thrown, glyphs and all, so neither the values nor the symbols tell the two rolls apart.
-/

namespace Tabletop

set_option autoImplicit false

namespace Roll

theorem throw_others_append (patience : Nat) (combined : Bool) (before after : List Roll) (pool : List Face) :
    throwOthers patience combined (before ++ after) pool =
      throwOthers patience combined before pool >>= throwOthers patience combined after := by
  induction before generalizing pool with
  | nil => rfl
  | cons member before ih => simp only [List.cons_append, throwOthers, bind_assoc, ih]

/-- The same roll under the opposite sign. The multiplier -2147483648 has no opposite. -/
def opposite? : Roll → Option Roll
  | single roll => roll.multiplier.neg?.map fun multiplier => single { roll with multiplier }
  | group first others tail combined negative => some (group first others tail combined !negative)

/-- A member of a nested group as it stands in the group around it. -/
def spliced? (negative : Bool) (member : Roll) : Option Roll := if negative then member.opposite? else some member

theorem opposite_single {roll : Single} {turned : Roll} (given : (single roll).opposite? = some turned) :
    ∃ multiplier : Whole, turned = single { roll with multiplier } ∧ multiplier.val = -roll.multiplier.val := by
  obtain ⟨multiplier, opposite, rfl⟩ := Option.map_eq_some_iff.mp given
  exact ⟨multiplier, rfl, Whole.ofInt?_eq_some.mp opposite⟩

theorem opposite_is_negative {member turned : Roll} (given : member.opposite? = some turned)
    (thrown : member.isIdle = false) : turned.isNegative = !member.isNegative := by
  cases member with
  | single roll =>
      obtain ⟨multiplier, rfl, value⟩ := opposite_single given
      have nonzero : roll.multiplier.val ≠ 0 := of_decide_eq_false thrown
      simp only [isNegative, Whole.isNegative, value, ← decide_not]
      exact decide_eq_decide.mpr (by omega)
  | group first others tail combined negative =>
      cases given
      rfl

theorem opposite_idle {member turned : Roll} (given : member.opposite? = some turned) (idle : member.isIdle = true)
    (patience : Nat) : member.throw patience = .done .empty ∧ turned.throw patience = .done .empty := by
  cases member with
  | single roll =>
      obtain ⟨multiplier, rfl, value⟩ := opposite_single given
      have zero : roll.multiplier.val = 0 := of_decide_eq_true idle
      constructor
      · exact if_pos (Int.natAbs_eq_zero.mpr zero)
      · exact if_pos (Int.natAbs_eq_zero.mpr (by rw [value, zero]; rfl))
  | group => cases idle

end Roll

namespace Face

def signed? (negative : Bool) (faces : List Face) : Option (List Face) :=
  if negative then faces.mapM negated? else some faces

theorem signed_nil (negative : Bool) : signed? negative [] = some [] := by
  cases negative <;> rfl

theorem signed_append {negative : Bool} {faces more outside : List Face}
    (given : signed? negative (faces ++ more) = some outside) :
    ∃ first second, signed? negative faces = some first ∧ signed? negative more = some second ∧
      outside = first ++ second := by
  cases negative with
  | false =>
      cases given
      exact ⟨faces, more, rfl, rfl, rfl⟩
  | true =>
      simp only [signed?, if_true, List.mapM_append, Option.bind_eq_bind, Option.bind_eq_some_iff] at given ⊢
      obtain ⟨first, ofFaces, second, ofMore, same⟩ := given
      cases same
      exact ⟨first, second, ofFaces, ofMore, rfl⟩

end Face

theorem Roll.contribution_combined (member : Roll) (result : Result) :
    member.contribution? true result = Face.signed? member.isNegative result.faces :=
  rfl

namespace Throw

/-- What the second result puts into the outer group is what the first one puts there through the nested group. -/
def Splices (negative : Bool) (member turned : Roll) (result result' : Result) : Prop :=
  ∀ inside pooled outside, member.contribution? true result = some inside →
    turned.contribution? true result' = some pooled → Face.signed? negative inside = some outside → pooled = outside

theorem scored_alongside (throw : Throw (List Face)) (roll roll' : Roll) (tail : Tail) (negative negative' : Bool)
    (arrange : List Face → List Face) :
    Alongside (fun result result' => result'.faces = result.faces)
      (throw >>= fun faces => complete roll (tail.score? negative (arrange faces)))
      (throw >>= fun faces => complete roll' (tail.score? negative' (arrange faces))) := by
  apply alongside_bind (alongside_refl throw)
  rintro faces _ rfl
  apply alongside_complete
  intro result result' scored scored'
  rw [Tail.faces_of_score scored, Tail.faces_of_score scored']

theorem opposite_alongside {member turned : Roll} (given : member.opposite? = some turned) (patience : Nat) :
    Alongside (fun result result' => result'.faces = result.faces) (member.throw patience) (turned.throw patience) := by
  cases member with
  | single roll =>
      obtain ⟨multiplier, rfl, value⟩ := Roll.opposite_single given
      have count : ({ roll with multiplier } : Single).count = roll.count := by
        rw [Single.count, value, Int.natAbs_neg]
        rfl
      rw [Roll.throw, Roll.throw, Single.throw, Single.throw, count]
      split
      · exact .done rfl
      · have same : ({ roll with multiplier } : Single).faces patience = roll.faces patience := by
          rw [Single.faces, count]
          rfl
        rw [same]
        exact scored_alongside (roll.faces patience) _ _ roll.tail _ _ fun faces =>
          roll.order.apply (roll.tail.limited faces)
  | group first others tail combined negative =>
      cases given
      rw [Roll.throw_group, Roll.throw_group]
      exact scored_alongside _ _ _ tail _ _ tail.limited

theorem splices_opposite {member turned : Roll} (given : member.opposite? = some turned) (patience : Nat) :
    Alongside (Splices true member turned) (member.throw patience) (turned.throw patience) := by
  cases idle : member.isIdle with
  | true =>
      -- A count of zero has no sign to turn, but no faces either whose sign would matter.
      obtain ⟨none, none'⟩ := Roll.opposite_idle given idle patience
      rw [none, none']
      refine .done fun inside pooled outside taken taken' around => ?_
      rw [Roll.contribution_combined, Result.empty, Face.signed_nil] at taken taken'
      cases taken
      cases taken'
      exact Option.some.inj around
  | false =>
      have both := alongside_yields (opposite_alongside given patience) (throw_yields kept_displays member patience)
      refine alongside_mono both fun result result' holds inside pooled outside taken taken' around => ?_
      obtain ⟨faces, displays⟩ := holds
      rw [Roll.contribution_combined] at taken taken'
      rw [Roll.opposite_is_negative given idle, faces] at taken'
      cases negative : member.isNegative with
      | false =>
          rw [negative] at taken taken'
          cases taken
          exact Option.some.inj (taken'.symm.trans around)
      | true =>
          rw [negative] at taken taken'
          cases taken'
          exact (Face.negated_twice_all (Roll.told_of_displays displays) taken around).symm

theorem splices {negative : Bool} {member turned : Roll} (given : member.spliced? negative = some turned)
    (patience : Nat) : Alongside (Splices negative member turned) (member.throw patience) (turned.throw patience) := by
  cases negative with
  | true => exact splices_opposite given patience
  | false =>
      cases given
      apply alongside_mono (alongside_refl (member.throw patience))
      rintro result _ rfl inside pooled outside taken taken' around
      cases around
      exact Option.some.inj (taken'.symm.trans taken)

/-- The second pool holds what the outer group had before, and the faces of the nested group under its sign. -/
def Pooled (negative : Bool) (pool inside pooled : List Face) : Prop :=
  ∀ outside, Face.signed? negative inside = some outside → pooled = pool ++ outside

theorem pooled_append {negative : Bool} {member turned : Roll} {result result' : Result}
    {pool inside pooled more more' : List Face} (before : Pooled negative pool inside pooled)
    (splices : Splices negative member turned result result') (taken : member.contribution? true result = some more)
    (taken' : turned.contribution? true result' = some more') :
    Pooled negative pool (inside ++ more) (pooled ++ more') := by
  intro outside around
  obtain ⟨first, second, ofInside, ofMore, rfl⟩ := Face.signed_append around
  rw [before first ofInside, splices more more' second taken taken' ofMore, List.append_assoc]

theorem others_alongside {negative : Bool} {members turned : List Roll}
    (given : members.mapM (Roll.spliced? negative) = some turned) (patience : Nat) {pool inside pooled : List Face}
    (before : Pooled negative pool inside pooled) :
    Alongside (Pooled negative pool) (Roll.throwOthers patience true members inside)
      (Roll.throwOthers patience true turned pooled) := by
  induction members generalizing turned inside pooled with
  | nil =>
      cases given
      exact .done before
  | cons member members ih =>
      obtain ⟨first, others, ofMember, ofMembers, rfl⟩ := mapM_cons_eq_some.mp given
      rw [Roll.throwOthers, Roll.throwOthers]
      apply alongside_bind (splices ofMember patience)
      intro result result' same
      have taken : Alongside (fun more more' => Pooled negative pool (inside ++ more) (pooled ++ more'))
          (checked (member.contribution? true result)) (checked (first.contribution? true result')) :=
        alongside_checked fun more more' => pooled_append before same
      apply alongside_bind taken
      exact fun more more' pooled => ih ofMembers pooled

theorem nested_alongside {first : Roll} {others turned : List Roll} {negative : Bool}
    (given : (first :: others).mapM (Roll.spliced? negative) = some turned) (patience : Nat) (pool : List Face) :
    let nested : Roll := .group first others .plain true negative
    Alongside
      (fun result pooled => ∀ outside, nested.contribution? true result = some outside → pooled = pool ++ outside)
      (nested.throw patience) (Roll.throwOthers patience true turned pool) := by
  intro nested
  have start : Pooled negative pool [] pool := by
    intro outside around
    rw [Face.signed_nil] at around
    cases around
    exact (List.append_nil pool).symm
  rw [Roll.throw_group, ← bind_done (Roll.throwOthers patience true turned pool)]
  apply alongside_bind (others_alongside given patience start)
  intro inside pooled same
  cases scored : Tail.plain.score? negative (Tail.plain.limited inside) with
  | none => exact .overflow _
  | some result =>
      refine .note (.done fun outside around => same outside ?_)
      rwa [Roll.contribution_combined, Tail.faces_of_score scored] at around

theorem spliced_alongside {first : Roll} {others turned : List Roll} {negative : Bool}
    (given : (first :: others).mapM (Roll.spliced? negative) = some turned) (patience : Nat)
    (before after : List Roll) :
    Alongside (· = ·)
      (Roll.throwOthers patience true (before ++ .group first others .plain true negative :: after) [])
      (Roll.throwOthers patience true (before ++ turned ++ after) []) := by
  rw [List.append_assoc, Roll.throw_others_append, Roll.throw_others_append]
  apply alongside_bind (alongside_refl _)
  rintro pool _ rfl
  rw [Roll.throw_others_append, Roll.throwOthers]
  apply alongside_bind (nested_alongside given patience pool)
  intro result pooled same
  cases around : Roll.contribution? true (.group first others .plain true negative) result with
  | none => exact .overflow _
  | some outside =>
      rw [same outside around]
      exact alongside_refl (Roll.throwOthers patience true after (pool ++ outside))

end Throw

namespace Session

variable {σ : Type}

/-- In a combined group a combined group without limit, tests and modifier can give way to its members, under the
opposite signs if it is negative. If both rolls evaluate to a result, this is one result, faces, total and successes,
and the sessions behind them have counted the same throws. -/
theorem evaluate_spliced (roller : Roller σ) (session : Session σ) (tail : Tail) (negative inner : Bool)
    {first first' head : Roll} {others others' rest before after turned : List Roll}
    (members : first :: others = before ++ .group head rest .plain true inner :: after)
    (given : (head :: rest).mapM (Roll.spliced? inner) = some turned)
    (members' : first' :: others' = before ++ turned ++ after)
    {run run' : Run σ Mishap Result} {result result' : Result}
    (ends : Ends roller (.group first others tail true negative) session run)
    (ends' : Ends roller (.group first' others' tail true negative) session run')
    (done : run.outcome = .ok result) (done' : run'.outcome = .ok result') :
    result' = result ∧ run'.session = run.session := by
  -- Each evaluation ends with a patience of its own; with the larger of the two both do.
  obtain ⟨enough, carried⟩ := exists_patience ends
  obtain ⟨enough', carried'⟩ := exists_patience ends'
  let patience := max enough enough'
  have both : Throw.Alongside (· = ·) ((Roll.group first others tail true negative).throw patience)
      ((Roll.group first' others' tail true negative).throw patience) := by
    rw [Roll.throw_group, Roll.throw_group, members, members']
    apply Throw.alongside_bind (Throw.spliced_alongside given patience before after)
    rintro faces _ rfl
    apply Throw.alongside_complete
    intro result result' scored scored'
    exact Option.some.inj (scored.symm.trans scored')
  have first := carried patience (Nat.le_max_left _ _)
  have second := carried' patience (Nat.le_max_right _ _)
  subst first second
  obtain ⟨same, left⟩ := carry_out_alongside both session [] [] done done'
  exact ⟨same.symm, left⟩

theorem evaluate_spliced_fate :
    let six : Die := .standard ⟨6, by decide, by decide⟩
    let two : Whole := ⟨2, by decide, by decide⟩
    let minusTwo : Whole := ⟨-2, by decide, by decide⟩
    let tail : Tail := ⟨.zero, some ⟨.keepHighest, 4, by decide⟩, some ⟨.greater, .zero⟩, none⟩
    let inside : Roll := .group (.single (.plain .minusOne .fate))
      [.single (.plain two .fate), .single (.plain .zero six)] .plain true true
    let roll : Roll := .group (.single (.plain two .fate)) [inside, .single (.plain .one six)] tail true true
    let spliced : Roll := .group (.single (.plain two .fate)) [.single (.plain .one .fate),
      .single (.plain minusTwo .fate), .single (.plain .zero six), .single (.plain .one six)] tail true true
    let session := start (some 6) (.ofList [3, 1, 1, 3, 2, 5])
    let faces : List Face := [⟨.one, "⊞"⟩, ⟨.minusOne, "⊟"⟩, ⟨.zero, "☐"⟩, ⟨⟨5, by decide, by decide⟩, "5"⟩]
    (evaluate Roller.scripted roll session).outcome = .ok ⟨faces, two, two⟩ ∧
      (evaluate Roller.scripted spliced session).outcome = .ok ⟨faces, two, two⟩ ∧
      (evaluate Roller.scripted spliced session).session = (evaluate Roller.scripted roll session).session := by
  intro six two minusTwo tail inside roll spliced session faces
  have done : (evaluate Roller.scripted roll session).outcome = .ok ⟨faces, two, two⟩ := by cbv
  have done' : (evaluate Roller.scripted spliced session).outcome = .ok ⟨faces, two, two⟩ := by cbv
  have members : .single (.plain two .fate) :: [inside, .single (.plain .one six)] =
      [.single (.plain two .fate)] ++ inside :: [.single (.plain .one six)] := rfl
  have given : [.single (.plain .minusOne .fate), .single (.plain two .fate), .single (.plain .zero six)].mapM
      (Roll.spliced? true) = some [.single (.plain .one .fate), .single (.plain minusTwo .fate),
        .single (.plain .zero six)] := rfl
  have same := evaluate_spliced Roller.scripted session tail true true members given rfl (ends_of_done done)
    (ends_of_done done') done done'
  exact ⟨done, done', same.2⟩

end Session

end Tabletop
