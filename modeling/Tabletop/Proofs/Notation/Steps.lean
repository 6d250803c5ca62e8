import Tabletop.Notation.Reading
import Tabletop.Proofs.Notation.Suffixes

/-!
# What one token does to a reading

Every step that is not a fault is listed once, in the terms of the grammar. All that is said about whole notations
follows from the list.
-/

namespace Tabletop.Notation

set_option autoImplicit false

theorem bind_eq_ok {ε α β : Type} {first : Except ε α} {next : α → Except ε β} {result : β} :
    first >>= next = .ok result ↔ ∃ value, first = .ok value ∧ next value = .ok result := by
  cases first with
  | error fault => simp [Bind.bind, Except.bind]
  | ok value => simp [Bind.bind, Except.bind]

theorem unit_is_negative (negative : Bool) : (unit negative).isNegative = negative := by
  cases negative <;> rfl

theorem number_nonnegative {token : Token} {value : Whole} (isNumber : IsNumber token value) : 0 ≤ value.val := by
  rw [isNumber.value]
  exact Int.natCast_nonneg _

theorem sides_of_nat_eq_some {n : Nat} {sides : Sides} : Sides.ofNat? n = some sides ↔ sides.count = n := by
  obtain ⟨count, pos, small⟩ := sides
  unfold Sides.ofNat?
  constructor
  · intro found
    split at found
    · cases found
      rfl
    · cases found
  · intro same
    subst same
    rw [dif_pos ⟨pos, small⟩]

theorem limit_of_nat_eq_some {kind : Limit.Kind} {n : Nat} {limit : Limit} :
    Limit.ofNat? kind n = some limit ↔ limit.kind = kind ∧ limit.amount = n := by
  obtain ⟨kind', amount, small⟩ := limit
  unfold Limit.ofNat?
  constructor
  · intro found
    split at found
    · cases found
      exact ⟨rfl, rfl⟩
    · cases found
  · intro given
    obtain ⟨rfl, rfl⟩ := given
    rw [dif_pos small]

namespace Token

variable {token : Token}

theorem or_unexpected_eq_ok {α : Type} {value? : Option α} {value : α} :
    token.orUnexpected value? = .ok value ↔ value? = some value := by
  cases value? with
  | none => simp [orUnexpected, unexpected]
  | some _ => simp [orUnexpected]

theorem number_eq_ok {value : Whole} : token.number = .ok value ↔ value.val = Decimal.value token.text := by
  rw [number, or_unexpected_eq_ok, Whole.ofNat?, Whole.ofInt?_eq_some]

theorem signed_number_eq_ok {negative : Bool} {value : Whole} :
    token.signedNumber negative = .ok value ↔
      ∃ size : Whole, size.val = Decimal.value token.text ∧ value.val = signed negative size.val := by
  simp only [← number_eq_ok, signedNumber]
  cases token.number with
  | error fault => simp [Bind.bind, Except.bind]
  | ok size =>
      simp only [Bind.bind, Except.bind, Except.ok.injEq, exists_eq_left']
      cases negative with
      | false =>
          rw [if_neg Bool.false_ne_true, Except.ok.injEq]
          exact ⟨fun same => congrArg Whole.val same.symm, fun same => Whole.ext same.symm⟩
      | true => rw [if_pos rfl, or_unexpected_eq_ok, Whole.neg?, Whole.ofInt?_eq_some, signed, if_pos rfl]

theorem die_eq_ok {die : Die} : token.die = .ok die ↔ DieCode (token.text.drop 1) die := by
  dsimp only [Token.die]
  generalize token.text.drop 1 = code
  constructor
  · intro read
    split at read
    · rename_i numeric
      split at read
      · cases read
      · rw [or_unexpected_eq_ok, Die.ofSides?] at read
        split at read
        · obtain ⟨sides, found, rfl⟩ := Option.map_eq_some_iff.mp read
          rw [sides_of_nat_eq_some] at found
          exact .sides numeric.1 numeric.2 found (by omega)
        · cases read
    · split at read
      · rename_i fate
        cases read
        rcases fate with rfl | rfl
        · exact .fate
        · exact .fateCapital
      · cases read
  · intro denotes
    cases denotes with
    | @sides code sides written digits value small =>
        have positive := sides.pos
        rw [if_pos ⟨written, digits⟩, if_neg (by omega), or_unexpected_eq_ok, Die.ofSides?, if_pos (by omega),
          Option.map_eq_some_iff]
        exact ⟨sides, sides_of_nat_eq_some.mpr value, rfl⟩
    | fate => rfl
    | fateCapital => rfl

theorem limit_eq_ok {kind : Limit.Kind} {limit : Limit} :
    token.limit kind = .ok limit ↔
      limit.kind = kind ∧ limit.amount = if token.text.drop 2 = [] then 1 else Decimal.value (token.text.drop 2) := by
  rw [Token.limit, or_unexpected_eq_ok, limit_of_nat_eq_some]

end Token

namespace Slot

/-- The suffix that a test for the slot is. -/
def suffix (test : Test) : Slot → Suffix
  | reroll once => .reroll ⟨test, once⟩
  | exploding kind => .explosion ⟨kind, test⟩
  | success => .success test
  | failure => .failure test

end Slot

theorem tail_put_without_modifier {tail : Tail} {suffix : Suffix} (none : suffix.modifier? = none) :
    tail.put? suffix = some
      { tail with
        limit := suffix.limit?.or tail.limit
        success := suffix.success?.or tail.success
        failure := suffix.failure?.or tail.failure } := by
  have kept : Whole.ofInt? (tail.modifier.val + 0) = some tail.modifier := by rw [Int.add_zero, Whole.ofInt?_eq_some]
  rw [Tail.put?, none, Option.getD_none, kept, Option.map_some]

theorem put_slot_suffix (roll : Roll) (slot : Slot) (test : Test) :
    roll.put? (slot.suffix test) = some (slot.fill test roll) := by
  cases roll with
  | single single =>
      rw [Roll.put?, Single.put?, tail_put_without_modifier (by cases slot <;> rfl)]
      cases slot <;> simp [Slot.suffix, Slot.fill, Suffix.reroll?, Suffix.explosion?, Suffix.order?, Suffix.limit?,
        Suffix.success?, Suffix.failure?, Roll.withTail, Roll.tail]
  | group first others tail combined negative =>
      rw [Roll.put?, tail_put_without_modifier (by cases slot <;> rfl)]
      cases slot <;> simp [Slot.suffix, Slot.fill, Suffix.limit?, Suffix.success?, Suffix.failure?, Roll.withTail,
        Roll.tail]

theorem put_limit (roll : Roll) (limit : Limit) :
    roll.put? (.limit limit) = some (roll.withTail { roll.tail with limit := some limit }) := by
  cases roll with
  | single single =>
      rw [Roll.put?, Single.put?, tail_put_without_modifier rfl]
      simp [Suffix.reroll?, Suffix.explosion?, Suffix.order?, Suffix.limit?, Suffix.success?, Suffix.failure?,
        Roll.withTail, Roll.tail]
  | group first others tail combined negative =>
      rw [Roll.put?, tail_put_without_modifier rfl]
      rfl

theorem put_order (single : Single) (order : Order) :
    (Roll.single single).put? (.order order) = some (.single { single with order }) := by
  rw [Roll.put?, Single.put?, tail_put_without_modifier rfl]
  simp [Suffix.reroll?, Suffix.explosion?, Suffix.order?, Suffix.limit?, Suffix.success?, Suffix.failure?]

theorem put_modifier (roll : Roll) (value : Whole) :
    roll.put? (.modifier value) =
      (roll.tail.modifier.add? value).map fun modifier => roll.withTail { roll.tail with modifier } := by
  cases roll with
  | single single =>
      simp [Roll.put?, Single.put?, Tail.put?, Suffix.reroll?, Suffix.explosion?, Suffix.order?, Suffix.limit?,
        Suffix.success?, Suffix.failure?, Suffix.modifier?, Roll.withTail, Roll.tail, Whole.add?, Function.comp_def]
  | group first others tail combined negative =>
      simp [Roll.put?, Tail.put?, Suffix.limit?, Suffix.success?, Suffix.failure?, Suffix.modifier?, Roll.withTail,
        Roll.tail, Whole.add?, Function.comp_def]

theorem put_modifier_of_in_range {roll : Roll} {value : Whole}
    (fits : Whole.InRange (roll.tail.modifier.val + value.val)) :
    ∃ changed, roll.put? (.modifier value) = some changed := by
  have sum : roll.tail.modifier.add? value = some ⟨_, fits.1, fits.2⟩ := Whole.ofInt?_eq_some.mpr rfl
  exact ⟨_, by rw [put_modifier, sum, Option.map_some]⟩

theorem in_range_of_put_modifier {roll changed : Roll} {value : Whole}
    (put : roll.put? (.modifier value) = some changed) : Whole.InRange (roll.tail.modifier.val + value.val) := by
  rw [put_modifier] at put
  obtain ⟨sum, found, -⟩ := Option.map_eq_some_iff.mp put
  rw [← Whole.ofInt?_eq_some.mp found]
  exact ⟨sum.low, sum.high⟩

/-- A modifier can be taken back. -/
theorem restore_modifier {roll changed : Roll} {value : Whole} (put : roll.put? (.modifier value) = some changed) :
    changed.withTail { changed.tail with modifier := roll.tail.modifier } = roll := by
  rw [put_modifier] at put
  obtain ⟨sum, -, rfl⟩ := Option.map_eq_some_iff.mp put
  cases roll <;> rfl

namespace Reading

/-- The steps of a reading, one rule for each meaning that a token can have. -/
inductive Step : Reading → Token → Reading → Prop where
  | count {groups : List Frame} {token : Token} {multiplier : Whole} (isNumber : IsNumber token multiplier) :
      Step ⟨groups, .roll⟩ token ⟨groups, .die multiplier⟩
  | die {groups : List Frame} {token : Token} {die : Die} (isDie : IsDie token die) :
      Step ⟨groups, .roll⟩ token ⟨groups, .suffix (.single (.plain .one die)) none⟩
  | opening {groups : List Frame} {token : Token} (kind : token.kind = .opening) :
      Step ⟨groups, .roll⟩ token ⟨⟨token.span, false, [], none⟩ :: groups, .roll⟩
  | countedDie {groups : List Frame} {token : Token} {multiplier : Whole} {die : Die} (isDie : IsDie token die) :
      Step ⟨groups, .die multiplier⟩ token ⟨groups, .suffix (.single (.plain multiplier die)) none⟩
  | reroll {groups : List Frame} {token : Token} {single : Single} {pending : Option Pending} {once : Bool}
      (kind : token.kind = .reroll once) :
      Step ⟨groups, .suffix (.single single) pending⟩ token ⟨groups, .test (.single single) (.reroll once)⟩
  | explosion {groups : List Frame} {token : Token} {single : Single} {pending : Option Pending}
      {explosion : Explosion.Kind} (kind : token.kind = .explode explosion) :
      Step ⟨groups, .suffix (.single single) pending⟩ token ⟨groups, .test (.single single) (.exploding explosion)⟩
  | order {groups : List Frame} {token : Token} {single : Single} {pending : Option Pending} {order : Order}
      (kind : token.kind = .sort order) :
      Step ⟨groups, .suffix (.single single) pending⟩ token ⟨groups, .suffix (.single { single with order }) none⟩
  | limit {groups : List Frame} {token : Token} {roll : Roll} {pending : Option Pending} {limit : Limit}
      (isLimit : IsLimit token limit) :
      Step ⟨groups, .suffix roll pending⟩ token
        ⟨groups, .suffix (roll.withTail { roll.tail with limit := some limit }) none⟩
  | success {groups : List Frame} {token : Token} {roll : Roll} {pending : Option Pending} {relation : Relation}
      (kind : token.kind = .compare relation) :
      Step ⟨groups, .suffix roll pending⟩ token ⟨groups, .threshold roll .success relation⟩
  | failure {groups : List Frame} {token : Token} {roll : Roll} {pending : Option Pending}
      (kind : token.kind = .failure) :
      Step ⟨groups, .suffix roll pending⟩ token ⟨groups, .test roll .failure⟩
  | sign {groups : List Frame} {token : Token} {roll : Roll} {pending : Option Pending} {negative : Bool}
      (kind : token.kind = signKind negative) :
      Step ⟨groups, .suffix roll pending⟩ token ⟨groups, .modifier roll negative token.span⟩
  | closing {frame : Frame} {outer : List Frame} {token : Token} {roll : Roll} {pending : Option Pending}
      (kind : token.kind = .closing) :
      Step ⟨frame :: outer, .suffix roll pending⟩ token ⟨outer, .suffix (frame.close roll) none⟩
  | comma {frame : Frame} {outer : List Frame} {token : Token} {roll : Roll} {pending : Option Pending}
      (kind : token.kind = .comma) (unsigned : frame.joint ≠ some .sign) :
      Step ⟨frame :: outer, .suffix roll pending⟩ token ⟨frame.push roll .comma :: outer, .roll⟩
  /-- The number before the die was a multiplier. -/
  | handedDie {frame : Frame} {outer : List Frame} {token : Token} {roll : Roll} {pending : Pending} {die : Die}
      (isDie : IsDie token die) (unlisted : frame.joint ≠ some .comma) :
      Step ⟨frame :: outer, .suffix roll (some pending)⟩ token
        ⟨frame.push (roll.withTail { roll.tail with modifier := pending.before }) .sign :: outer,
          .suffix (.single (.plain pending.value die)) none⟩
  | relation {groups : List Frame} {token : Token} {roll : Roll} {slot : Slot} {relation : Relation}
      (kind : token.kind = .compare relation) :
      Step ⟨groups, .test roll slot⟩ token ⟨groups, .threshold roll slot relation⟩
  | equality {groups : List Frame} {token : Token} {roll : Roll} {slot : Slot} {threshold : Whole}
      (isNumber : IsNumber token threshold) :
      Step ⟨groups, .test roll slot⟩ token ⟨groups, .suffix (slot.fill ⟨.equal, threshold⟩ roll) none⟩
  | threshold {groups : List Frame} {token : Token} {roll : Roll} {slot : Slot} {relation : Relation}
      {threshold : Whole} (isNumber : IsNumber token threshold) :
      Step ⟨groups, .threshold roll slot relation⟩ token
        ⟨groups, .suffix (slot.fill ⟨relation, threshold⟩ roll) none⟩
  | number {groups : List Frame} {token : Token} {roll changed : Roll} {negative : Bool} {sign : Span}
      {size value : Whole} (isNumber : IsNumber token size) (value_eq : value.val = signed negative size.val)
      (put : roll.put? (.modifier value) = some changed) :
      Step ⟨groups, .modifier roll negative sign⟩ token
        ⟨groups, .suffix changed (some ⟨value, sign, roll.tail.modifier⟩)⟩
  | signedDie {frame : Frame} {outer : List Frame} {token : Token} {roll : Roll} {negative : Bool} {sign : Span}
      {die : Die} (isDie : IsDie token die) (unlisted : frame.joint ≠ some .comma) :
      Step ⟨frame :: outer, .modifier roll negative sign⟩ token
        ⟨frame.push roll .sign :: outer, .suffix (.single (.plain (unit negative) die)) none⟩
  | signedOpening {frame : Frame} {outer : List Frame} {token : Token} {roll : Roll} {negative : Bool} {sign : Span}
      (kind : token.kind = .opening) (unlisted : frame.joint ≠ some .comma) :
      Step ⟨frame :: outer, .modifier roll negative sign⟩ token
        ⟨⟨token.span, negative, [], none⟩ :: frame.push roll .sign :: outer, .roll⟩

theorem begin_eq_ok {groups : List Frame} {multiplier : Whole} {token : Token} {next : Reading} :
    begin groups multiplier token = .ok next ↔
      (∃ die, IsDie token die ∧ next = ⟨groups, .suffix (.single (.plain multiplier die)) none⟩) ∨
      token.kind = .opening ∧ next = ⟨⟨token.span, multiplier.isNegative, [], none⟩ :: groups, .roll⟩ := by
  constructor
  · intro done
    unfold begin at done
    split at done
    · rename_i kind
      obtain ⟨die, read, same⟩ := bind_eq_ok.mp done
      cases same
      exact .inl ⟨die, ⟨kind, Token.die_eq_ok.mp read⟩, rfl⟩
    · rename_i kind
      cases done
      exact .inr ⟨kind, rfl⟩
    · cases done
  · intro given
    rcases given with ⟨die, ⟨kind, code⟩, rfl⟩ | ⟨kind, rfl⟩
    · rw [begin, kind, Token.die_eq_ok.mpr code]
      rfl
    · rw [begin, kind]

theorem begin_die {groups : List Frame} {multiplier : Whole} {token : Token} {die : Die} (isDie : IsDie token die) :
    begin groups multiplier token = .ok ⟨groups, .suffix (.single (.plain multiplier die)) none⟩ :=
  begin_eq_ok.mpr (.inl ⟨die, isDie, rfl⟩)

theorem begin_opening (groups : List Frame) (multiplier : Whole) {token : Token} (kind : token.kind = .opening) :
    begin groups multiplier token = .ok ⟨⟨token.span, multiplier.isNegative, [], none⟩ :: groups, .roll⟩ :=
  begin_eq_ok.mpr (.inr ⟨kind, rfl⟩)

theorem hand_eq_ok {groups : List Frame} {member : Roll} {value : Whole} {sign : Span} {token : Token}
    {next : Reading} :
    hand groups member value sign token = .ok next ↔
      ∃ frame outer, groups = frame :: outer ∧ frame.joint ≠ some .comma ∧
        begin (frame.push member .sign :: outer) value token = .ok next := by
  cases groups with
  | nil => simp [hand, Token.unexpected]
  | cons frame outer =>
      simp only [hand, List.cons.injEq]
      constructor
      · intro done
        split at done
        · cases done
        · exact ⟨frame, outer, ⟨rfl, rfl⟩, ‹_›, done⟩
      · intro given
        obtain ⟨_, _, ⟨rfl, rfl⟩, unlisted, done⟩ := given
        rw [if_neg unlisted, done]

theorem after_number_eq_ok {groups : List Frame} {roll : Roll} {negative : Bool} {sign : Span} {token : Token}
    {next : Reading} :
    afterNumber groups roll negative sign token = .ok next ↔
      ∃ value changed, token.signedNumber negative = .ok value ∧ roll.put? (.modifier value) = some changed ∧
        next = ⟨groups, .suffix changed (some ⟨value, sign, roll.tail.modifier⟩)⟩ := by
  simp only [afterNumber, bind_eq_ok, Token.or_unexpected_eq_ok, put_modifier, Option.map_eq_some_iff,
    Except.ok.injEq]
  constructor
  · intro given
    obtain ⟨value, read, modifier, sum, rfl⟩ := given
    exact ⟨value, _, read, ⟨modifier, sum, rfl⟩, rfl⟩
  · intro given
    obtain ⟨value, _, read, ⟨modifier, sum, rfl⟩, rfl⟩ := given
    exact ⟨value, read, modifier, sum, rfl⟩

private theorem step_of_suffix {groups : List Frame} {roll : Roll} {pending : Option Pending} {token : Token}
    {next : Reading} (done : suffix groups roll pending token = .ok next) :
    Step ⟨groups, .suffix roll pending⟩ token next := by
  unfold suffix at done
  split at done
  case h_1 once kind =>
    cases roll with
    | single single => cases done; exact .reroll kind
    | group => cases done
  case h_2 explosion kind =>
    cases roll with
    | single single => cases done; exact .explosion kind
    | group => cases done
  case h_3 order kind =>
    cases roll with
    | single single => cases done; exact .order kind
    | group => cases done
  case h_4 limitKind kind =>
    obtain ⟨limit, read, same⟩ := bind_eq_ok.mp done
    cases same
    obtain ⟨rfl, amount⟩ := Token.limit_eq_ok.mp read
    exact .limit ⟨kind, amount⟩
  case h_5 relation kind => cases done; exact .success kind
  case h_6 kind => cases done; exact .failure kind
  case h_7 kind =>
    have plus : token.kind = signKind false := kind
    cases done
    exact .sign plus
  case h_8 kind =>
    have minus : token.kind = signKind true := kind
    cases done
    exact .sign minus
  case h_9 kind =>
    cases groups with
    | nil => cases done
    | cons frame outer => cases done; exact .closing kind
  case h_10 kind =>
    cases groups with
    | nil => cases done
    | cons frame outer =>
        dsimp only at done
        split at done
        · cases done
        · cases done
          exact .comma kind ‹_›
  case h_11 kind =>
    cases pending with
    | none => cases done
    | some pending =>
        obtain ⟨frame, outer, rfl, unlisted, begun⟩ := hand_eq_ok.mp done
        rcases begin_eq_ok.mp begun with ⟨die, isDie, rfl⟩ | ⟨opening, -⟩
        · exact .handedDie isDie unlisted
        · rw [kind] at opening
          cases opening
  case h_12 => cases done

private theorem step_of_eq_ok {reading next : Reading} {token : Token} (done : reading.step token = .ok next) :
    Step reading token next := by
  obtain ⟨groups, expecting⟩ := reading
  cases expecting with
  | roll =>
      dsimp only [step] at done
      split at done
      · rename_i kind
        obtain ⟨multiplier, read, same⟩ := bind_eq_ok.mp done
        cases same
        exact .count ⟨kind, Token.number_eq_ok.mp read⟩
      · rcases begin_eq_ok.mp done with ⟨die, isDie, rfl⟩ | ⟨kind, rfl⟩
        · exact .die isDie
        · exact .opening kind
  | die multiplier =>
      dsimp only [step] at done
      split at done
      · rename_i kind
        rcases begin_eq_ok.mp done with ⟨die, isDie, rfl⟩ | ⟨opening, -⟩
        · exact .countedDie isDie
        · rw [kind] at opening
          cases opening
      · cases done
  | suffix roll pending => exact step_of_suffix done
  | test roll slot =>
      dsimp only [step] at done
      split at done
      · cases done
        exact .relation ‹_›
      · rename_i kind
        obtain ⟨threshold, read, same⟩ := bind_eq_ok.mp done
        cases same
        exact .equality ⟨kind, Token.number_eq_ok.mp read⟩
      · cases done
  | threshold roll slot relation =>
      dsimp only [step] at done
      split at done
      · rename_i kind
        obtain ⟨threshold, read, same⟩ := bind_eq_ok.mp done
        cases same
        exact .threshold ⟨kind, Token.number_eq_ok.mp read⟩
      · cases done
  | modifier roll negative sign =>
      have handed (begun : hand groups roll (unit negative) sign token = .ok next) :
          Step ⟨groups, .modifier roll negative sign⟩ token next := by
        obtain ⟨frame, outer, rfl, unlisted, begun⟩ := hand_eq_ok.mp begun
        rcases begin_eq_ok.mp begun with ⟨die, isDie, rfl⟩ | ⟨kind, rfl⟩
        · exact .signedDie isDie unlisted
        · rw [unit_is_negative]
          exact .signedOpening kind unlisted
      dsimp only [step] at done
      split at done
      · rename_i kind
        obtain ⟨value, changed, read, put, rfl⟩ := after_number_eq_ok.mp done
        obtain ⟨size, isNumber, value_eq⟩ := Token.signed_number_eq_ok.mp read
        exact .number ⟨kind, isNumber⟩ value_eq put
      · exact handed done
      · exact handed done
      · cases done

private theorem eq_ok_of_step {reading next : Reading} {token : Token} (step : Step reading token next) :
    reading.step token = .ok next := by
  cases step with
  | count isNumber => simp [Reading.step, isNumber.kind, Token.number_eq_ok.mpr isNumber.value, Bind.bind, Except.bind]
  | die isDie => simp [Reading.step, isDie.kind, begin_die isDie]
  | opening kind => simp [Reading.step, kind, begin_opening _ _ kind, Whole.isNegative, Whole.one]
  | countedDie isDie => simp [Reading.step, isDie.kind, begin_die isDie]
  | reroll kind => simp [Reading.step, suffix, kind]
  | explosion kind => simp [Reading.step, suffix, kind]
  | order kind => simp [Reading.step, suffix, kind, continueWith]
  | limit isLimit =>
      have read := Token.limit_eq_ok.mpr ⟨rfl, isLimit.amount⟩
      simp [Reading.step, suffix, isLimit.kind, read, continueWith, Bind.bind, Except.bind]
  | success kind => simp [Reading.step, suffix, kind]
  | failure kind => simp [Reading.step, suffix, kind]
  | @sign _ _ _ _ negative kind => cases negative <;> simp_all [Reading.step, suffix, signKind]
  | closing kind => simp [Reading.step, suffix, kind, continueWith]
  | comma kind unsigned => simp [Reading.step, suffix, kind, unsigned]
  | handedDie isDie unlisted => simp [Reading.step, suffix, isDie.kind, hand, unlisted, begin_die isDie]
  | relation kind => simp [Reading.step, kind]
  | equality isNumber =>
      simp [Reading.step, isNumber.kind, Token.number_eq_ok.mpr isNumber.value, continueWith, Bind.bind, Except.bind]
  | threshold isNumber =>
      simp [Reading.step, isNumber.kind, Token.number_eq_ok.mpr isNumber.value, continueWith, Bind.bind, Except.bind]
  | number isNumber value_eq put =>
      have read := Token.signed_number_eq_ok.mpr ⟨_, isNumber.value, value_eq⟩
      simp only [Reading.step, isNumber.kind]
      exact after_number_eq_ok.mpr ⟨_, _, read, put, rfl⟩
  | signedDie isDie unlisted =>
      simp only [Reading.step, isDie.kind]
      exact hand_eq_ok.mpr ⟨_, _, rfl, unlisted, begin_die isDie⟩
  | @signedOpening frame outer _ roll negative _ kind unlisted =>
      have opened := begin_opening (frame.push roll .sign :: outer) (unit negative) kind
      rw [unit_is_negative] at opened
      simp only [Reading.step, kind]
      exact hand_eq_ok.mpr ⟨_, _, rfl, unlisted, opened⟩

theorem step_eq_ok {reading next : Reading} {token : Token} :
    reading.step token = .ok next ↔ Step reading token next :=
  ⟨step_of_eq_ok, eq_ok_of_step⟩

/-- The tokens take the reading to the other one. -/
inductive Reads : Reading → List Token → Reading → Prop where
  | nil {reading : Reading} : Reads reading [] reading
  | cons {reading next last : Reading} {token : Token} {tokens : List Token} (step : Step reading token next)
      (reads : Reads next tokens last) : Reads reading (token :: tokens) last

theorem Reads.trans {reading middle last : Reading} {tokens rest : List Token} (before : Reads reading tokens middle)
    (after : Reads middle rest last) : Reads reading (tokens ++ rest) last := by
  induction before with
  | nil => exact after
  | cons step _ ih => exact .cons step (ih after)

theorem fold_eq_ok {reading last : Reading} {tokens : List Token} :
    tokens.foldlM Reading.step reading = .ok last ↔ Reads reading tokens last := by
  induction tokens generalizing reading with
  | nil =>
      constructor
      · intro done
        cases done
        exact .nil
      · intro reads
        cases reads
        rfl
  | cons token tokens ih =>
      rw [List.foldlM_cons, bind_eq_ok]
      constructor
      · intro given
        obtain ⟨next, done, rest⟩ := given
        exact .cons (step_eq_ok.mp done) (ih.mp rest)
      · intro reads
        cases reads with
        | cons step rest => exact ⟨_, step_eq_ok.mpr step, ih.mpr rest⟩

theorem reads_append {reading last : Reading} {tokens rest : List Token} :
    Reads reading (tokens ++ rest) last ↔ ∃ middle, Reads reading tokens middle ∧ Reads middle rest last := by
  simp only [← fold_eq_ok, List.foldlM_append, bind_eq_ok]

theorem finish_eq_ok {reading : Reading} {length : Nat} {roll : Roll} :
    reading.finish length = .ok roll ↔ ∃ pending, reading = ⟨[], .suffix roll pending⟩ := by
  obtain ⟨groups, expecting⟩ := reading
  cases groups <;> cases expecting <;> simp [finish, Token.unexpected]

end Reading

/-- A notation is read where its tokens, white space aside, lead from the start to a finished roll. -/
theorem read_eq_ok {cs : List Char} {roll : Roll} :
    read cs = .ok roll ↔
      ∃ pending, Reading.Reads .start ((tokens cs).filter (!·.isSpace)) ⟨[], .suffix roll pending⟩ := by
  simp only [read, bind_eq_ok, Reading.fold_eq_ok, Reading.finish_eq_ok]
  constructor
  · intro given
    obtain ⟨_, reads, pending, rfl⟩ := given
    exact ⟨pending, reads⟩
  · intro given
    obtain ⟨pending, reads⟩ := given
    exact ⟨_, reads, pending, rfl⟩

end Tabletop.Notation
