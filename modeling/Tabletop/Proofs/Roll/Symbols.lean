import Mathlib.Algebra.Ring.Int.Defs
import Tabletop.Report

/-!
# What faces show

The symbol of a face says its value, in decimal or by the glyph of that very value, also when the face is counted
against its group. No symbol has a comma or a space in it, so the values can be read back from a line of symbols.
-/

namespace Tabletop

set_option autoImplicit false

namespace Glyph

def values : List (Int × String) := [(-1, minus), (0, blank), (1, plus)]

end Glyph

namespace Face

/-- The symbol of the face says its value. -/
inductive Told (face : Face) : Prop where
  | decimal (written : face.symbol = String.ofList face.value.text)
  | glyph (drawn : (face.value.val, face.symbol) ∈ Glyph.values)

end Face

namespace Explosion

/-- The value is the sum of values that were thrown for one face: all but the last are accepted by the test. -/
def Compounds (explosion : Explosion) (value : Whole) : Prop :=
  explosion.kind = .compounded ∧ ∃ (earlier : List Whole) (last : Whole),
    (∀ thrown ∈ earlier, explosion.test.accepts thrown = true) ∧ explosion.test.accepts last = false ∧
      value.val = (earlier.map Whole.val).sum + last.val

end Explosion

namespace Single

/-- What a face of the roll shows: what the die shows for the value, or a compounded sum in decimal. -/
inductive Shows (roll : Single) (face : Face) : Prop where
  | die (drawn : face.symbol = roll.die.symbol face.value)
  | sum {explosion : Explosion} (given : roll.exploding = some explosion) (compounds : explosion.Compounds face.value)
      (written : face.symbol = String.ofList face.value.text)

end Single

namespace Roll

/-- The faces of the result tell their values, and those of a single roll show them as its die does. -/
def Displays : Roll → Result → Prop
  | single roll, result => ∀ face ∈ result.faces, face.Told ∧ roll.Shows face
  | group .., result => ∀ face ∈ result.faces, face.Told

theorem told_of_displays {roll : Roll} {result : Result} (displays : roll.Displays result) :
    ∀ face ∈ result.faces, face.Told := by
  cases roll with
  | single roll => exact fun face found => (displays face found).1
  | group => exact displays

end Roll

namespace Whole

theorem text_nonnegative {value : Whole} (high : 0 ≤ value.val) : value.text = Decimal.digits value.val.natAbs :=
  if_neg (Int.not_lt.mpr high)

theorem text_negative {value : Whole} (low : value.val < 0) : value.text = '-' :: Decimal.digits value.val.natAbs :=
  if_pos low

theorem mem_text {value : Whole} {c : Char} (found : c ∈ value.text) : c = '-' ∨ c.isDigit = true := by
  rcases Int.lt_or_le value.val 0 with low | high
  · rw [text_negative low] at found
    rcases List.mem_cons.mp found with same | found
    · exact .inl same
    · exact .inr (Decimal.isDigit_of_mem_digits found)
  · rw [text_nonnegative high] at found
    exact .inr (Decimal.isDigit_of_mem_digits found)

theorem text_ne_nil (value : Whole) : value.text ≠ [] := by
  rcases Int.lt_or_le value.val 0 with low | high
  · rw [text_negative low]
    exact List.cons_ne_nil _ _
  · rw [text_nonnegative high]
    exact Decimal.digits_ne_nil _

end Whole

namespace Glyph

theorem glyph_char {glyph : Int × String} (found : glyph ∈ values) :
    ∃ c, glyph.2.toList = [c] ∧ c ≠ '-' ∧ c.isDigit = false ∧ c ≠ ',' ∧ c ≠ ' ' := by
  simp only [values, List.mem_cons, List.not_mem_nil, or_false] at found
  rcases found with rfl | rfl | rfl
  · exact ⟨'⊟', by decide⟩
  · exact ⟨'☐', by decide⟩
  · exact ⟨'⊞', by decide⟩

theorem text_ne_glyph (value : Whole) {glyph : Int × String} (found : glyph ∈ values) :
    String.ofList value.text ≠ glyph.2 := by
  obtain ⟨c, alone, notMinus, notDigit, -, -⟩ := glyph_char found
  intro same
  have written : c ∈ value.text := by
    rw [← String.toList_ofList (l := value.text), same, alone]
    exact List.mem_singleton_self c
  rcases Whole.mem_text written with minus | digit
  · exact notMinus minus
  · rw [notDigit] at digit
    cases digit

end Glyph

theorem Die.told_face (die : Die) (value : Whole) : (die.face value).Told := by
  cases die with
  | standard sides => exact .decimal rfl
  | fate =>
      by_cases minus : value = .minusOne
      · subst minus
        exact .glyph (by decide)
      · by_cases blank : value = .zero
        · subst blank
          exact .glyph (by decide)
        · by_cases plus : value = .one
          · subst plus
            exact .glyph (by decide)
          · refine .decimal ?_
            simp only [Die.face, Die.symbol, if_neg minus, if_neg blank, if_neg plus]

theorem Face.told_synthetic (value : Whole) : (Face.synthetic value).Told := .decimal rfl

theorem Face.negated_value {face negated : Face} (done : face.negated? = some negated) :
    negated.value.val = -face.value.val := by
  obtain ⟨value, opposite, rfl⟩ := Option.map_eq_some_iff.mp done
  exact Whole.ofInt?_eq_some.mp opposite

theorem Face.negated_written {face negated : Face} (written : face.symbol = String.ofList face.value.text)
    (done : face.negated? = some negated) : negated.symbol = String.ofList negated.value.text := by
  obtain ⟨value, opposite, rfl⟩ := Option.map_eq_some_iff.mp done
  have unlike {glyph : Int × String} (found : glyph ∈ Glyph.values) : face.symbol ≠ glyph.2 :=
    written ▸ Glyph.text_ne_glyph face.value found
  dsimp only
  rw [if_neg (unlike (.head _)), if_neg (unlike (.tail _ (.tail _ (.head _)))), if_neg (unlike (.tail _ (.head _)))]

theorem Face.eq_of_glyph {face : Face} (drawn : (face.value.val, face.symbol) ∈ Glyph.values) :
    face = ⟨.minusOne, Glyph.minus⟩ ∨ face = ⟨.zero, Glyph.blank⟩ ∨ face = ⟨.one, Glyph.plus⟩ := by
  obtain ⟨value, symbol⟩ := face
  simp only [Glyph.values, List.mem_cons, List.not_mem_nil, or_false, Prod.mk.injEq] at drawn
  rcases drawn with ⟨same, rfl⟩ | ⟨same, rfl⟩ | ⟨same, rfl⟩
  · exact .inl (congrArg (Face.mk · _) (Whole.ext same))
  · exact .inr (.inl (congrArg (Face.mk · _) (Whole.ext same)))
  · exact .inr (.inr (congrArg (Face.mk · _) (Whole.ext same)))

/-- Counted against its group a face still tells its value: glyphs are swapped, numbers written anew. -/
theorem Face.told_negated {face negated : Face} (told : face.Told) (done : face.negated? = some negated) :
    negated.Told := by
  cases told with
  | decimal written => exact .decimal (Face.negated_written written done)
  | glyph drawn =>
      rcases Face.eq_of_glyph drawn with rfl | rfl | rfl <;> cases done <;> exact .glyph (by decide)

theorem Face.negated_twice {face turned back : Face} (told : face.Told) (once : face.negated? = some turned)
    (twice : turned.negated? = some back) : back = face := by
  cases told with
  | decimal written =>
      have value : back.value = face.value := by
        apply Whole.ext
        rw [Face.negated_value twice, Face.negated_value once, Int.neg_neg]
      have symbol := Face.negated_written (Face.negated_written written once) twice
      rw [value, ← written] at symbol
      obtain ⟨_, _⟩ := face
      obtain ⟨_, _⟩ := back
      exact (Face.mk.injEq ..).mpr ⟨value, symbol⟩
  | glyph drawn =>
      rcases Face.eq_of_glyph drawn with rfl | rfl | rfl <;> cases once <;> cases twice <;> rfl

theorem mapM_cons_eq_some {α β : Type} {f : α → Option β} {value : α} {values : List α} {results : List β} :
    (value :: values).mapM f = some results ↔
      ∃ first others, f value = some first ∧ values.mapM f = some others ∧ results = first :: others := by
  simp only [List.mapM_cons, Option.bind_eq_bind, Option.bind_eq_some_iff, Option.pure_def, Option.some.injEq]
  constructor
  · rintro ⟨first, given, others, rest, same⟩
    exact ⟨first, others, given, rest, same.symm⟩
  · rintro ⟨first, others, given, rest, same⟩
    exact ⟨first, given, others, rest, same.symm⟩

theorem Face.told_negated_all {faces negated : List Face} (told : ∀ face ∈ faces, face.Told)
    (done : faces.mapM Face.negated? = some negated) : ∀ face ∈ negated, face.Told := by
  induction faces generalizing negated with
  | nil =>
      cases done
      exact List.forall_mem_nil _
  | cons face faces ih =>
      obtain ⟨ofFace, ofFaces⟩ := List.forall_mem_cons.mp told
      obtain ⟨first, others, negatedFirst, negatedOthers, rfl⟩ := mapM_cons_eq_some.mp done
      exact List.forall_mem_cons.mpr ⟨Face.told_negated ofFace negatedFirst, ih ofFaces negatedOthers⟩

theorem Face.negated_twice_all {faces turned back : List Face} (told : ∀ face ∈ faces, face.Told)
    (once : faces.mapM Face.negated? = some turned) (twice : turned.mapM Face.negated? = some back) :
    back = faces := by
  induction faces generalizing turned back with
  | nil =>
      cases once
      cases twice
      rfl
  | cons face faces ih =>
      obtain ⟨ofFace, ofFaces⟩ := List.forall_mem_cons.mp told
      obtain ⟨first, others, onceFirst, onceOthers, rfl⟩ := mapM_cons_eq_some.mp once
      obtain ⟨last, rest, twiceFirst, twiceOthers, rfl⟩ := mapM_cons_eq_some.mp twice
      rw [Face.negated_twice ofFace onceFirst twiceFirst, ih ofFaces onceOthers twiceOthers]

theorem Single.told_of_shows {single : Single} {face : Face} (shows' : single.Shows face) : face.Told := by
  cases shows' with
  | die drawn =>
      have same : face = single.die.face face.value := by rw [Die.face, ← drawn]
      exact same ▸ single.die.told_face face.value
  | sum _ _ written => exact .decimal written

theorem Limit.mem_of_mem_apply {limit : Limit} {faces : List Face} {face : Face} (found : face ∈ limit.apply faces) :
    face ∈ faces := by
  unfold Limit.apply at found
  split at found
  · exact found
  · obtain ⟨placed, best, rfl⟩ := List.mem_map.mp found
    have taken := List.mem_of_mem_take (List.mem_mergeSort.mp best)
    exact List.fst_mem_of_mem_zipIdx (List.mem_mergeSort.mp taken)

theorem Tail.mem_of_mem_limited {tail : Tail} {faces : List Face} {face : Face} (found : face ∈ tail.limited faces) :
    face ∈ faces := by
  unfold Tail.limited at found
  split at found
  · exact Limit.mem_of_mem_apply found
  · exact found

theorem Order.apply_perm (order : Order) (faces : List Face) : (order.apply faces).Perm faces := by
  cases order with
  | unsorted => exact List.Perm.refl _
  | ascending => exact List.mergeSort_perm _ _
  | descending => exact List.mergeSort_perm _ _

theorem Order.mem_apply {order : Order} {faces : List Face} {face : Face} :
    face ∈ order.apply faces ↔ face ∈ faces :=
  (order.apply_perm faces).mem_iff

theorem Tail.faces_of_score {tail : Tail} {negative : Bool} {faces : List Face} {result : Result}
    (scored : tail.score? negative faces = some result) : result.faces = faces := by
  unfold Tail.score? at scored
  split at scored
  · obtain ⟨tally, -, rfl⟩ := Option.map_eq_some_iff.mp scored
    rfl
  · obtain ⟨total, -, rfl⟩ := Option.map_eq_some_iff.mp scored
    rfl

namespace Symbol

def read (symbol : List Char) : Int :=
  match Glyph.values.find? (·.2.toList = symbol) with
  | some glyph => glyph.1
  | none =>
    match symbol with
    | '-' :: digits => -Decimal.value digits
    | digits => Decimal.value digits

theorem read_text (value : Whole) : read value.text = value.val := by
  have none : Glyph.values.find? (·.2.toList = value.text) = none := by
    refine List.find?_eq_none.mpr fun glyph found same => ?_
    have written : glyph.2.toList = value.text := of_decide_eq_true same
    exact Glyph.text_ne_glyph value found (by rw [← written, String.ofList_toList])
  unfold read
  rw [none]
  dsimp only
  rcases Int.lt_or_le value.val 0 with low | high
  · rw [Whole.text_negative low]
    change -(Decimal.value (Decimal.digits value.val.natAbs) : Int) = _
    rw [Decimal.value_digits]
    omega
  · rw [Whole.text_nonnegative high]
    split
    · rename_i digits minus
      have digit : ('-').isDigit = true := Decimal.isDigit_of_mem_digits (minus ▸ List.mem_cons_self)
      cases digit
    · rw [Decimal.value_digits]
      omega

theorem read_told {face : Face} (told : face.Told) : read face.symbol.toList = face.value.val := by
  cases told with
  | decimal written => rw [written, String.toList_ofList, read_text]
  | glyph drawn =>
      have reads : ∀ glyph ∈ Glyph.values, read glyph.2.toList = glyph.1 := by decide
      exact reads _ drawn

theorem mem_told {face : Face} (told : face.Told) {c : Char} (found : c ∈ face.symbol.toList) : c ≠ ',' ∧ c ≠ ' ' := by
  cases told with
  | decimal written =>
      rw [written, String.toList_ofList] at found
      rcases Whole.mem_text found with rfl | digit
      · decide
      · constructor <;> rintro rfl <;> cases digit
  | glyph drawn =>
      obtain ⟨only, alone, -, -, apart⟩ := Glyph.glyph_char drawn
      have same := List.mem_singleton.mp (alone ▸ found)
      exact same ▸ apart

theorem told_ne_nil {face : Face} (told : face.Told) : face.symbol.toList ≠ [] := by
  cases told with
  | decimal written =>
      rw [written, String.toList_ofList]
      exact Whole.text_ne_nil _
  | glyph drawn =>
      obtain ⟨only, alone, -⟩ := Glyph.glyph_char drawn
      rw [alone]
      exact List.cons_ne_nil _ _

end Symbol

namespace Result

/-- The values of the faces whose symbols stand in a line: spaces say nothing, and commas are between symbols. -/
def readValues (line : List Char) : List Int :=
  if line = [] then [] else ((line.filter (· ≠ ' ')).splitOn ',').map Symbol.read

theorem filter_intercalate {pieces : List (List Char)} (solid : ∀ piece ∈ pieces, ' ' ∉ piece) :
    ([',', ' '].intercalate pieces).filter (· ≠ ' ') = [','].intercalate pieces := by
  have kept {piece : List Char} (solid : ' ' ∉ piece) : piece.filter (· ≠ ' ') = piece := by
    refine List.filter_eq_self.mpr fun c found => decide_eq_true ?_
    rintro rfl
    exact solid found
  induction pieces with
  | nil => rfl
  | cons piece pieces ih =>
      obtain ⟨first, others⟩ := List.forall_mem_cons.mp solid
      cases pieces with
      | nil => rw [List.intercalate_singleton, List.intercalate_singleton, kept first]
      | cons next pieces =>
          rw [List.intercalate_cons_cons, List.intercalate_cons_cons, List.filter_append, List.filter_append,
            kept first, ih others]
          rfl

/-- The values of all faces can be read back from the text of a result whose faces tell them. -/
theorem read_values_text {result : Result} (told : ∀ face ∈ result.faces, face.Told) :
    readValues result.text = result.faces.map (·.value.val) := by
  have apart {mark : Char} (clear : ∀ face : Face, face.Told → mark ∉ face.symbol.toList) :
      ∀ symbol ∈ result.faces.map (·.symbol.toList), mark ∉ symbol := by
    intro symbol found
    obtain ⟨face, inside, rfl⟩ := List.mem_map.mp found
    exact clear face (told face inside)
  have commas := apart fun face told found => (Symbol.mem_told told found).1 rfl
  have spaces := apart fun face told found => (Symbol.mem_told told found).2 rfl
  obtain ⟨faces, total, successes⟩ := result
  cases faces with
  | nil => rfl
  | cons face faces =>
      have written : text ⟨face :: faces, total, successes⟩ ≠ [] := by
        intro empty
        have first := Symbol.told_ne_nil (told face List.mem_cons_self)
        cases faces with
        | nil => exact first (by simpa [text] using empty)
        | cons next faces => exact first (by simp_all [text])
      rw [readValues, if_neg written, text, filter_intercalate spaces,
        List.splitOn_intercalate ',' commas (by simp), List.map_map]
      exact List.map_congr_left fun face found => Symbol.read_told (told face found)

end Result

end Tabletop
