import Mathlib.Data.List.Forall2
import Tabletop.Session

/-!
# The course of a throw

A throw that asks for one die at a time is led to its outcome by the values that the die shows. Throws one behind the
other share these values out: each takes up where the one before it came to its value.
-/

namespace Tabletop

set_option autoImplicit false

namespace Throw

variable {α β : Type} {die : Die}

/-- Nothing but this die is asked for, and one at a time. -/
def Solo (die : Die) : Throw α → Prop
  | done _ => True
  | overflow => True
  | endless => True
  | one asked next => asked = die ∧ ∀ value, (next value).Solo die
  | many _ _ _ => False
  | note _ _ _ => False

/-- The throw comes to the outcome when the die has shown just these values. -/
inductive Course (die : Die) : Throw α → List Whole → Except Mishap α → Prop where
  | done (value : α) : Course die (.done value) [] (.ok value)
  | overflow : Course die .overflow [] (.error .overflow)
  | endless : Course die .endless [] (.error .endless)
  | one {next : Whole → Throw α} {value : Whole} {values : List Whole} {outcome : Except Mishap α}
      (rest : Course die (next value) values outcome) : Course die (.one die next) (value :: values) outcome

theorem solo_bind {throw : Throw α} {f : α → Throw β} (before : throw.Solo die) (after : ∀ value, (f value).Solo die) :
    (throw >>= f).Solo die := by
  induction throw with
  | done value => exact after value
  | overflow => trivial
  | endless => trivial
  | one asked next ih => exact ⟨before.1, fun value => ih value (before.2 value)⟩
  | many => exact before.elim
  | note => exact before.elim

theorem solo_map {f : α → Throw β} (each : ∀ value, (f value).Solo die) (values : List α) :
    (values.mapM f).Solo die := by
  induction values with
  | nil => trivial
  | cons value values ih =>
      rw [List.mapM_cons]
      exact solo_bind (each value) fun _ => solo_bind ih fun _ => trivial

theorem solo_fold {f : β → α → Throw β} (each : ∀ state value, (f state value).Solo die) (values : List α)
    (state : β) : (values.foldlM f state).Solo die := by
  induction values generalizing state with
  | nil => trivial
  | cons value values ih => exact solo_bind (each state value) ih

theorem course_bind {throw : Throw α} {f : α → Throw β} {values : List Whole} {outcome : Except Mishap β} :
    Course die (throw >>= f) values outcome ↔
      (∃ mishap, Course die throw values (.error mishap) ∧ outcome = .error mishap) ∨
        ∃ first value rest, Course die throw first (.ok value) ∧ Course die (f value) rest outcome ∧
          values = first ++ rest := by
  constructor
  · intro course
    induction throw generalizing values with
    | done value => exact .inr ⟨[], value, values, .done value, course, rfl⟩
    | overflow =>
        cases course
        exact .inl ⟨_, .overflow, rfl⟩
    | endless =>
        cases course
        exact .inl ⟨_, .endless, rfl⟩
    | one asked next ih =>
        change Course die (.one asked fun value => next value >>= f) values outcome at course
        cases course with
        | one rest =>
            rcases ih _ rest with ⟨mishap, failed, same⟩ | ⟨first, value, others, before, after, rfl⟩
            · exact .inl ⟨mishap, .one failed, same⟩
            · exact .inr ⟨_ :: first, value, others, .one before, after, rfl⟩
    | many => cases course
    | note => cases course
  · rintro (⟨mishap, failed, rfl⟩ | ⟨first, value, rest, before, after, rfl⟩)
    · generalize ended : (.error mishap : Except Mishap α) = outcome' at failed
      induction failed with
      | done => cases ended
      | overflow =>
          cases ended
          exact .overflow
      | endless =>
          cases ended
          exact .endless
      | one _ ih => exact .one (ih ended)
    · generalize ended : (.ok value : Except Mishap α) = outcome' at before
      induction before with
      | done =>
          cases ended
          exact after
      | overflow => cases ended
      | endless => cases ended
      | one _ ih => exact .one (ih ended)

theorem course_bind_ok {throw : Throw α} {f : α → Throw β} {values : List Whole} {result : β} :
    Course die (throw >>= f) values (.ok result) ↔
      ∃ first value rest, Course die throw first (.ok value) ∧ Course die (f value) rest (.ok result) ∧
        values = first ++ rest := by
  rw [course_bind]
  constructor
  · rintro (⟨_, _, same⟩ | found)
    · cases same
    · exact found
  · exact .inr

theorem course_done {value : α} {values : List Whole} {outcome : Except Mishap α} :
    Course die (.done value) values outcome ↔ values = [] ∧ outcome = .ok value := by
  constructor
  · rintro ⟨⟩
    exact ⟨rfl, rfl⟩
  · rintro ⟨rfl, rfl⟩
    exact .done value

/-- What was thrown for one entry of a list, and what came of it. -/
structure Step (β : Type) where
  thrown : List Whole
  result : β

theorem forall_steps {property : List Whole → β → Prop} {parts : List (List Whole)} {results : List β} :
    List.Forall₂ property parts results ↔
      ∃ steps : List (Step β), parts = steps.map Step.thrown ∧ results = steps.map Step.result ∧
        ∀ step ∈ steps, property step.thrown step.result := by
  constructor
  · intro each
    induction each with
    | nil => exact ⟨[], rfl, rfl, List.forall_mem_nil _⟩
    | @cons part result _ _ first _ ih =>
        obtain ⟨steps, rfl, rfl, others⟩ := ih
        exact ⟨⟨part, result⟩ :: steps, rfl, rfl, List.forall_mem_cons.mpr ⟨first, others⟩⟩
  · rintro ⟨steps, rfl, rfl, each⟩
    rw [List.forall₂_map_left_iff, List.forall₂_map_right_iff, List.forall₂_same]
    exact each

theorem Step.length_thrown_le {steps : List (Step β)} {step : Step β} (found : step ∈ steps) :
    step.thrown.length ≤ (steps.flatMap Step.thrown).length := by
  have part : step.thrown.Sublist (steps.flatMap Step.thrown) :=
    List.sublist_flatten_of_mem (List.mem_map_of_mem found)
  exact part.length_le

theorem exists_entry {property : α → Step β → Prop} {entries : List α} {steps : List (Step β)}
    (each : List.Forall₂ property entries steps) {step : Step β} (found : step ∈ steps) :
    ∃ entry ∈ entries, property entry step := by
  induction each with
  | nil => cases found
  | cons first _ ih =>
      rcases List.mem_cons.mp found with rfl | found
      · exact ⟨_, List.mem_cons_self, first⟩
      · obtain ⟨entry, inside, holds⟩ := ih found
        exact ⟨entry, List.mem_cons_of_mem _ inside, holds⟩

theorem course_map_ok {f : α → Throw β} {entries : List α} {values : List Whole} {results : List β} :
    Course die (entries.mapM f) values (.ok results) ↔
      ∃ steps : List (Step β),
        List.Forall₂ (fun entry step => Course die (f entry) step.thrown (.ok step.result)) entries steps ∧
          values = steps.flatMap Step.thrown ∧ results = steps.map Step.result := by
  induction entries generalizing values results with
  | nil =>
      rw [List.mapM_nil]
      change Course die (.done []) values (.ok results) ↔ _
      rw [course_done]
      constructor
      · rintro ⟨rfl, same⟩
        cases same
        exact ⟨[], .nil, rfl, rfl⟩
      · rintro ⟨_, ⟨⟩, rfl, rfl⟩
        exact ⟨rfl, rfl⟩
  | cons entry entries ih =>
      rw [List.mapM_cons, course_bind_ok]
      constructor
      · rintro ⟨first, head, _, ofHead, others, rfl⟩
        obtain ⟨rest, tail, _, ofTail, ended, rfl⟩ := course_bind_ok.mp others
        obtain ⟨rfl, same⟩ := course_done.mp ended
        cases same
        obtain ⟨steps, each, rfl, rfl⟩ := ih.mp ofTail
        exact ⟨⟨first, head⟩ :: steps, .cons ofHead each, by rw [List.append_nil]; rfl, rfl⟩
      · rintro ⟨_, each, rfl, rfl⟩
        cases each with
        | @cons _ step _ steps ofHead each =>
            have ofTail := ih.mpr ⟨steps, each, rfl, rfl⟩
            refine ⟨step.thrown, step.result, _, ofHead, ?_, rfl⟩
            exact course_bind_ok.mpr ⟨_, _, [], ofTail, .done _, (List.append_nil _).symm⟩

theorem course_map_first {part : List Whole} {mishap : Mishap} (f : α → Throw β) (entry : α) (entries : List α)
    (failed : Course die (f entry) part (.error mishap)) :
    Course die ((entry :: entries).mapM f) part (.error mishap) := by
  rw [List.mapM_cons]
  exact course_bind.mpr (.inl ⟨mishap, failed, rfl⟩)

theorem course_map_later {first rest : List Whole} {result : β} {mishap : Mishap} (f : α → Throw β) (entry : α)
    {entries : List α} (before : Course die (f entry) first (.ok result))
    (failed : Course die (entries.mapM f) rest (.error mishap)) :
    Course die ((entry :: entries).mapM f) (first ++ rest) (.error mishap) := by
  rw [List.mapM_cons]
  exact course_bind.mpr (.inr ⟨first, result, rest, before, course_bind.mpr (.inl ⟨mishap, failed, rfl⟩), rfl⟩)

/-- A mishap befalls one entry, behind others that came to their results. -/
theorem course_map_error {f : α → Throw β} {entries : List α} {values : List Whole} {mishap : Mishap}
    (failed : Course die (entries.mapM f) values (.error mishap)) :
    ∃ (before : List α) (entry : α) (after : List α) (steps : List (Step β)) (part : List Whole),
      entries = before ++ entry :: after ∧
        List.Forall₂ (fun entry step => Course die (f entry) step.thrown (.ok step.result)) before steps ∧
        Course die (f entry) part (.error mishap) ∧ values = steps.flatMap Step.thrown ++ part := by
  induction entries generalizing values with
  | nil => cases failed
  | cons entry entries ih =>
      rw [List.mapM_cons] at failed
      rcases course_bind.mp failed with ⟨_, ofHead, same⟩ | ⟨first, head, _, ofHead, others, rfl⟩
      · cases same
        exact ⟨[], entry, entries, [], values, rfl, .nil, ofHead, rfl⟩
      · rcases course_bind.mp others with ⟨_, ofTail, same⟩ | ⟨_, _, _, _, ended, _⟩
        · cases same
          obtain ⟨before, failing, after, steps, part, rfl, each, ofPart, rfl⟩ := ih ofTail
          refine ⟨entry :: before, failing, after, ⟨first, head⟩ :: steps, part, rfl, .cons ofHead each, ofPart, ?_⟩
          exact (List.append_assoc first _ part).symm
        · cases ended

end Throw

end Tabletop
