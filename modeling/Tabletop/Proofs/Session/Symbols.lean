import Tabletop.Proofs.Session.Budget
import Tabletop.Proofs.Throw.Yields
import Tabletop.Roller.Tape

/-!
# Results tell their values

In every result of an evaluation, and in those noted on the way, the symbols of the faces say their values. A line with
the symbols is enough to tell what was rolled.
-/

namespace Tabletop

set_option autoImplicit false

namespace Roll

theorem told_contribution {combined : Bool} {member : Roll} {result : Result} {faces : List Face}
    (displays : member.Displays result) (given : member.contribution? combined result = some faces) :
    ∀ face ∈ faces, face.Told := by
  have told := told_of_displays displays
  unfold contribution? at given
  split at given
  · split at given
    · exact Face.told_negated_all told given
    · cases given
      exact told
  · cases given
    exact List.forall_mem_singleton.mpr (Face.told_synthetic result.total)

end Roll

namespace Throw

theorem kept_displays : Kept Roll.Displays Face.Told where
  idle _ _ := List.forall_mem_nil _
  dice single faces result _ shown scored := by
    intro face found
    rw [Tail.faces_of_score scored, Order.mem_apply] at found
    have shows' := shown face (Tail.mem_of_mem_limited found)
    exact ⟨Single.told_of_shows shows', shows'⟩
  contribution _ _ _ _ := Roll.told_contribution
  group _ _ _ _ _ faces result told scored := by
    intro face found
    rw [Tail.faces_of_score scored] at found
    exact told face (Tail.mem_of_mem_limited found)

end Throw

namespace Session

variable {σ : Type}

/-- Symbols never drift from values. Every face of the result of an evaluation, and of the results noted on the way,
says its value; a face of a single roll shows it as the die does, or as a compounded sum in decimal. So the values can
be read back from the text of the result. -/
theorem evaluate_displays {roller : Roller σ} {roll : Roll} {session : Session σ} {run : Run σ Mishap Result}
    (ends : Ends roller roll session run) :
    (∀ result, run.outcome = .ok result → roll.Displays result ∧
      Result.readValues result.text = result.faces.map (·.value.val)) ∧
    ∀ node result, .rolled node result ∈ run.events → node.Displays result ∧
      Result.readValues result.text = result.faces.map (·.value.val) := by
  obtain ⟨patience, done, -⟩ := ends
  have yields : run.Yields Roll.Displays roll.Displays := by
    rw [← done]
    exact fresh_yields (Throw.throw_yields Throw.kept_displays roll patience) session
  have readable {node : Roll} {result : Result} (displays : node.Displays result) :
      Result.readValues result.text = result.faces.map (·.value.val) :=
    Result.read_values_text (Roll.told_of_displays displays)
  refine ⟨?_, ?_⟩
  · intro result outcome
    have displays := yields.value result outcome
    exact ⟨displays, readable displays⟩
  · intro node result found
    have displays := yields.events node result found
    exact ⟨displays, readable displays⟩

theorem evaluate_displays_negated :
    let six : Die := .standard ⟨6, by decide, by decide⟩
    let high : Test := ⟨.equal, ⟨6, by decide, by decide⟩⟩
    let penetrating : Single := { Single.plain .one .fate with exploding := some ⟨.penetrating, ⟨.equal, .one⟩⟩ }
    let compounded : Single := { Single.plain .one six with exploding := some ⟨.compounded, high⟩ }
    let inner : Roll := .group (.single (.plain .one .fate)) [.single compounded] .plain true true
    let roll : Roll := .group (.single penetrating) [inner] .plain true false
    let session := start (some 6) (.ofList [3, 1, 3, 6, 6, 3])
    (∃ result, (evaluate Roller.scripted roll session).outcome = .ok result ∧ roll.Displays result ∧
        result.text = "⊞, -2, ⊟, -6, -9".toList) ∧
      Result.readValues "⊞, -2, ⊟, -6, -9".toList = [1, -2, -1, -6, -9] := by
  intro six high penetrating compounded inner roll session
  have outcome : (evaluate Roller.scripted roll session).outcome =
      .ok ⟨[⟨.one, "⊞"⟩, ⟨⟨-2, by decide, by decide⟩, "-2"⟩, ⟨.minusOne, "⊟"⟩, ⟨⟨-6, by decide, by decide⟩, "-6"⟩,
        ⟨⟨-9, by decide, by decide⟩, "-9"⟩], ⟨-17, by decide, by decide⟩, .zero⟩ := by
    cbv
  obtain ⟨displays, values⟩ := (evaluate_displays (ends_of_done outcome)).1 _ outcome
  exact ⟨⟨_, outcome, displays, by decide⟩, values⟩

end Session

end Tabletop
