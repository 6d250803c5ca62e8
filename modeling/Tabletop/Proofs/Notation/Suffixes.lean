import Tabletop.Proofs.Notation.Grammar

/-!
# Suffixes one by one

The grammar says what all suffixes of a roll come to. Here a roll takes them one at a time, as a reading does, and ends
at the same value.
-/

namespace Tabletop

set_option autoImplicit false

open Notation

namespace Tail

/-- The tail with one more suffix, if its modifier stays in range. -/
def put? (tail : Tail) (suffix : Suffix) : Option Tail :=
  (Whole.ofInt? (tail.modifier.val + suffix.modifier?.getD 0)).map fun modifier =>
    ⟨modifier, suffix.limit?.or tail.limit, suffix.success?.or tail.success, suffix.failure?.or tail.failure⟩

end Tail

namespace Single

def put? (single : Single) (suffix : Suffix) : Option Single :=
  (single.tail.put? suffix).map fun tail =>
    { single with
      rerolls := single.rerolls ++ suffix.reroll?.toList
      exploding := suffix.explosion?.or single.exploding
      order := suffix.order?.getD single.order
      tail }

end Single

namespace Roll

/-- The roll with one more suffix. -/
def put? (roll : Roll) (suffix : Suffix) : Option Roll :=
  match roll with
  | single roll => (roll.put? suffix).map single
  | group first others tail combined negative =>
    (tail.put? suffix).map fun tail => group first others tail combined negative

/-- The suffixes take the roll to the other one. -/
inductive Takes : Roll → List Suffix → Roll → Prop where
  | nil {roll : Roll} : Takes roll [] roll
  | cons {roll next last : Roll} {suffix : Suffix} {suffixes : List Suffix} (put : roll.put? suffix = some next)
      (others : Takes next suffixes last) : Takes roll (suffix :: suffixes) last

theorem takes_cons {roll last : Roll} {suffix : Suffix} {suffixes : List Suffix} :
    Takes roll (suffix :: suffixes) last ↔ ∃ next, roll.put? suffix = some next ∧ Takes next suffixes last := by
  constructor
  · intro takes
    cases takes with
    | cons put others => exact ⟨_, put, others⟩
  · intro given
    obtain ⟨next, put, others⟩ := given
    exact .cons put others

theorem takes_nil {roll last : Roll} : Takes roll [] last ↔ last = roll := by
  constructor
  · intro takes
    cases takes
    rfl
  · intro same
    subst same
    exact .nil

end Roll

namespace Notation

theorem last_cons {α : Type} (value? : Suffix → Option α) (suffix : Suffix) (suffixes : List Suffix) :
    Suffix.last? value? (suffix :: suffixes) = (Suffix.last? value? suffixes).or (value? suffix) := by
  unfold Suffix.last?
  cases given : value? suffix with
  | none => rw [List.filterMap_cons_none given, Option.or_none]
  | some value =>
      rw [List.filterMap_cons_some given, List.getLast?_cons]
      cases (suffixes.filterMap value?).getLast? <;> rfl

theorem running_nil {start : Int} : Running start [] ↔ Whole.InRange start := by
  constructor
  · intro running
    simpa using running [] List.prefix_rfl
  · intro range part begins
    rw [List.prefix_nil.mp begins]
    simpa using range

theorem running_cons {start addend : Int} {addends : List Int} :
    Running start (addend :: addends) ↔ Whole.InRange start ∧ Running (start + addend) addends := by
  constructor
  · intro running
    refine ⟨by simpa using running [] List.nil_prefix, ?_⟩
    intro part begins
    have longer := running (addend :: part) (List.cons_prefix_cons.mpr ⟨rfl, begins⟩)
    rwa [List.sum_cons, ← Int.add_assoc] at longer
  · intro given part begins
    obtain ⟨range, running⟩ := given
    cases part with
    | nil => simpa using range
    | cons head part =>
        obtain ⟨rfl, rest⟩ := List.cons_prefix_cons.mp begins
        rw [List.sum_cons, ← Int.add_assoc]
        exact running part rest

theorem running_in_range {start : Int} {addends : List Int} (running : Running start addends) :
    Whole.InRange start := by
  simpa using running [] List.nil_prefix

/-- What suffixes make of a tail that is there before them. -/
structure TailFrom (start : Tail) (suffixes : List Suffix) (tail : Tail) : Prop where
  running : Running start.modifier.val (suffixes.filterMap Suffix.modifier?)
  modifier : tail.modifier.val = start.modifier.val + (suffixes.filterMap Suffix.modifier?).sum
  limit : tail.limit = (Suffix.last? Suffix.limit? suffixes).or start.limit
  success : tail.success = (Suffix.last? Suffix.success? suffixes).or start.success
  failure : tail.failure = (Suffix.last? Suffix.failure? suffixes).or start.failure

theorem tail_from_plain {suffixes : List Suffix} {tail : Tail} :
    TailFrom .plain suffixes tail ↔ TailOf suffixes tail := by
  have zero : Tail.plain.modifier.val = 0 := rfl
  constructor
  · intro given
    obtain ⟨running, modifier, limit, success, failure⟩ := given
    rw [zero] at running
    rw [zero, Int.zero_add] at modifier
    exact ⟨running, modifier, limit.trans Option.or_none, success.trans Option.or_none, failure.trans Option.or_none⟩
  · intro given
    obtain ⟨running, modifier, limit, success, failure⟩ := given
    rw [← zero] at running
    rw [← Int.zero_add (List.sum _), ← zero] at modifier
    exact ⟨running, modifier, limit.trans Option.or_none.symm, success.trans Option.or_none.symm,
      failure.trans Option.or_none.symm⟩

theorem tail_from_nil {start tail : Tail} : TailFrom start [] tail ↔ tail = start := by
  constructor
  · intro given
    obtain ⟨-, modifier, limit, success, failure⟩ := given
    obtain ⟨value, _, _, _⟩ := tail
    obtain ⟨value', _, _, _⟩ := start
    have same : value = value' := Whole.ext (by simpa using modifier)
    simp only [Suffix.last?, List.filterMap_nil, List.getLast?_nil, Option.none_or] at limit success failure
    rw [same, limit, success, failure]
  · intro same
    subst same
    exact ⟨running_nil.mpr ⟨tail.modifier.low, tail.modifier.high⟩, (Int.add_zero _).symm, rfl, rfl, rfl⟩

theorem running_filter_map_cons {start : Whole} {suffix : Suffix} {suffixes : List Suffix} :
    Running start.val ((suffix :: suffixes).filterMap Suffix.modifier?) ↔
      Running (start.val + suffix.modifier?.getD 0) (suffixes.filterMap Suffix.modifier?) := by
  cases given : suffix.modifier? with
  | none => rw [List.filterMap_cons_none given, Option.getD_none, Int.add_zero]
  | some shift =>
      rw [List.filterMap_cons_some given, Option.getD_some, running_cons]
      exact and_iff_right ⟨start.low, start.high⟩

theorem sum_filter_map_cons {suffix : Suffix} {suffixes : List Suffix} :
    ((suffix :: suffixes).filterMap Suffix.modifier?).sum =
      suffix.modifier?.getD 0 + (suffixes.filterMap Suffix.modifier?).sum := by
  cases given : suffix.modifier? with
  | none => rw [List.filterMap_cons_none given, Option.getD_none, Int.zero_add]
  | some shift => rw [List.filterMap_cons_some given, List.sum_cons, Option.getD_some]

theorem tail_from_cons {start tail : Tail} {suffix : Suffix} {suffixes : List Suffix} :
    TailFrom start (suffix :: suffixes) tail ↔
      ∃ next, start.put? suffix = some next ∧ TailFrom next suffixes tail := by
  constructor
  · intro given
    obtain ⟨running, modifier, limit, success, failure⟩ := given
    rw [running_filter_map_cons] at running
    rw [sum_filter_map_cons, ← Int.add_assoc] at modifier
    rw [last_cons, Option.or_assoc] at limit success failure
    obtain ⟨low, high⟩ := running_in_range running
    let sum : Whole := ⟨start.modifier.val + suffix.modifier?.getD 0, low, high⟩
    have found : Whole.ofInt? (start.modifier.val + suffix.modifier?.getD 0) = some sum :=
      Whole.ofInt?_eq_some.mpr rfl
    exact ⟨_, Option.map_eq_some_iff.mpr ⟨sum, found, rfl⟩, running, modifier, limit, success, failure⟩
  · intro given
    obtain ⟨next, put, running, modifier, limit, success, failure⟩ := given
    obtain ⟨sum, found, rfl⟩ := Option.map_eq_some_iff.mp put
    rw [Whole.ofInt?_eq_some] at found
    simp only [found] at running modifier
    constructor
    · exact running_filter_map_cons.mpr running
    · rw [sum_filter_map_cons, ← Int.add_assoc, modifier]
    all_goals rwa [last_cons, Option.or_assoc]

/-- What suffixes make of dice that are there before them. -/
structure SingleFrom (start : Single) (suffixes : List Suffix) (single : Single) : Prop where
  multiplier : single.multiplier = start.multiplier
  die : single.die = start.die
  rerolls : single.rerolls = start.rerolls ++ suffixes.filterMap Suffix.reroll?
  exploding : single.exploding = (Suffix.last? Suffix.explosion? suffixes).or start.exploding
  order : single.order = (Suffix.last? Suffix.order? suffixes).getD start.order
  tail : TailFrom start.tail suffixes single.tail

theorem single_from_plain {multiplier : Whole} {die : Die} {suffixes : List Suffix} {single : Single} :
    SingleFrom (.plain multiplier die) suffixes single ↔ SingleOf multiplier die suffixes single := by
  constructor
  · intro given
    obtain ⟨multiplier, die, rerolls, exploding, order, tail⟩ := given
    exact ⟨multiplier, die, rerolls, exploding.trans Option.or_none, order, tail_from_plain.mp tail⟩
  · intro given
    obtain ⟨multiplier, die, rerolls, exploding, order, tail⟩ := given
    exact ⟨multiplier, die, rerolls, exploding.trans Option.or_none.symm, order, tail_from_plain.mpr tail⟩

theorem single_from_nil {start single : Single} : SingleFrom start [] single ↔ single = start := by
  constructor
  · intro given
    obtain ⟨multiplier, die, rerolls, exploding, order, tail⟩ := given
    obtain ⟨_, _, _, _, _, _⟩ := single
    rw [tail_from_nil] at tail
    simp only [Suffix.last?, List.filterMap_nil, List.getLast?_nil, Option.none_or, List.append_nil,
      Option.getD_none] at rerolls exploding order
    simp only at multiplier die tail
    rw [multiplier, die, rerolls, exploding, order, tail]
  · intro same
    subst same
    exact ⟨rfl, rfl, (List.append_nil _).symm, rfl, rfl, tail_from_nil.mpr rfl⟩

theorem single_from_cons {start single : Single} {suffix : Suffix} {suffixes : List Suffix} :
    SingleFrom start (suffix :: suffixes) single ↔
      ∃ next, start.put? suffix = some next ∧ SingleFrom next suffixes single := by
  have rerolls_cons : (suffix :: suffixes).filterMap Suffix.reroll? =
      suffix.reroll?.toList ++ suffixes.filterMap Suffix.reroll? := by
    cases given : suffix.reroll? with
    | none => rw [List.filterMap_cons_none given, Option.toList_none, List.nil_append]
    | some reroll => rw [List.filterMap_cons_some given, Option.toList_some, List.singleton_append]
  have order_cons : (Suffix.last? Suffix.order? (suffix :: suffixes)).getD start.order =
      (Suffix.last? Suffix.order? suffixes).getD (suffix.order?.getD start.order) := by
    rw [last_cons]
    cases Suffix.last? Suffix.order? suffixes <;> rfl
  constructor
  · intro given
    obtain ⟨multiplier, die, rerolls, exploding, order, tail⟩ := given
    obtain ⟨next, put, tail⟩ := tail_from_cons.mp tail
    rw [rerolls_cons, ← List.append_assoc] at rerolls
    rw [last_cons, Option.or_assoc] at exploding
    rw [order_cons] at order
    exact ⟨_, Option.map_eq_some_iff.mpr ⟨next, put, rfl⟩, multiplier, die, rerolls, exploding, order, tail⟩
  · intro given
    obtain ⟨next, put, multiplier, die, rerolls, exploding, order, tail⟩ := given
    obtain ⟨nextTail, putTail, rfl⟩ := Option.map_eq_some_iff.mp put
    constructor
    · exact multiplier
    · exact die
    · rwa [rerolls_cons, ← List.append_assoc]
    · rwa [last_cons, Option.or_assoc]
    · rwa [order_cons]
    · exact tail_from_cons.mpr ⟨nextTail, putTail, tail⟩

end Notation

namespace Roll

theorem takes_single {start : Single} {suffixes : List Suffix} {last : Roll} :
    Takes (.single start) suffixes last ↔ ∃ single, last = .single single ∧ SingleFrom start suffixes single := by
  induction suffixes generalizing start with
  | nil => simp only [takes_nil, single_from_nil, exists_eq_right]
  | cons suffix suffixes ih =>
      simp only [takes_cons, put?, Option.map_eq_some_iff, single_from_cons]
      constructor
      · intro given
        obtain ⟨_, ⟨next, put, rfl⟩, takes⟩ := given
        obtain ⟨single, rfl, value⟩ := ih.mp takes
        exact ⟨single, rfl, next, put, value⟩
      · intro given
        obtain ⟨single, rfl, next, put, value⟩ := given
        exact ⟨_, ⟨next, put, rfl⟩, ih.mpr ⟨single, rfl, value⟩⟩

theorem takes_group {first : Roll} {others : List Roll} {start : Tail} {combined negative : Bool}
    {suffixes : List Suffix} {last : Roll} :
    Takes (.group first others start combined negative) suffixes last ↔
      ∃ tail, last = .group first others tail combined negative ∧ TailFrom start suffixes tail := by
  induction suffixes generalizing start with
  | nil => simp only [takes_nil, tail_from_nil, exists_eq_right]
  | cons suffix suffixes ih =>
      simp only [takes_cons, put?, Option.map_eq_some_iff, tail_from_cons]
      constructor
      · intro given
        obtain ⟨_, ⟨next, put, rfl⟩, takes⟩ := given
        obtain ⟨tail, rfl, value⟩ := ih.mp takes
        exact ⟨tail, rfl, next, put, value⟩
      · intro given
        obtain ⟨tail, rfl, next, put, value⟩ := given
        exact ⟨_, ⟨next, put, rfl⟩, ih.mpr ⟨tail, rfl, value⟩⟩

end Roll

end Tabletop
