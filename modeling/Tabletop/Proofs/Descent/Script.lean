import Mathlib.Data.List.Nodup
import Tabletop.Notation.Trail
import Tabletop.Proofs.Notation.Places

/-!
# The script of a notation

The tokens of a notation and the ending behind them are all that a reading can meet. No token occurs twice in the
script, and what the trail of a reading says was met is the start of it, all of it where the reading succeeds.
-/

namespace Tabletop.Notation

set_option autoImplicit false

def script (cs : List Char) : List Token := tokens cs ++ [Token.ending (byteCount cs)]

theorem start_le_of_mem {start : Nat} {cs : List Char} : ∀ token ∈ tokensFrom start cs, start ≤ token.span.start := by
  fun_induction tokensFrom start cs with
  | case1 start => exact List.forall_mem_nil _
  | case2 start c rest run text stop ih =>
      refine List.forall_mem_cons.mpr ⟨Nat.le_refl start, ?_⟩
      intro token found
      exact Nat.le_trans (Nat.le_add_right start _) (ih token found)

theorem nodup_tokens_from (start : Nat) (cs : List Char) : (tokensFrom start cs).Nodup := by
  fun_induction tokensFrom start cs with
  | case1 start => exact List.nodup_nil
  | case2 start c rest run text stop ih =>
      have positive : 0 < byteCount text := byte_count_pos (List.cons_ne_nil _ _)
      apply List.nodup_cons.mpr
      constructor
      · intro found
        have later : stop ≤ start := start_le_of_mem _ found
        omega
      · exact ih

theorem nodup_script (cs : List Char) : (script cs).Nodup := by
  apply List.Nodup.append (nodup_tokens_from 0 cs) (List.nodup_singleton _)
  intro token found ending
  rw [List.mem_singleton] at ending
  subst ending
  exact kind_ne_ending_of_mem found rfl

namespace Mark

def met? : Mark → Option Token
  | met token => some token
  | took _ _ => none

end Mark

/-- The tokens that were met for the first time, in the order of the marks. -/
def met (marks : List Mark) : List Token := marks.filterMap Mark.met?

theorem met_append (left right : List Mark) : met (left ++ right) = met left ++ met right := List.filterMap_append

@[simp]
theorem met_met_cons (token : Token) (marks : List Mark) : met (.met token :: marks) = token :: met marks := rfl

@[simp]
theorem met_took_cons (multiplier : Whole) (die : Token) (marks : List Mark) :
    met (.took multiplier die :: marks) = met marks := rfl

@[simp]
theorem met_nil : met [] = [] := rfl

namespace Reading

/-- How a reading ends that goes on with the tokens to the end of a notation of so many bytes. -/
def conclude (length : Nat) (reading : Reading) (ahead : List Token) : Except Fault Roll := do
  let last ← (ahead.filter (!·.isSpace)).foldlM Reading.step reading
  last.finish length

variable {length : Nat} {reading : Reading} {token : Token} {ahead : List Token}

theorem conclude_space (space : token.isSpace = true) :
    conclude length reading (token :: ahead) = conclude length reading ahead := by
  rw [conclude, List.filter_cons_of_neg (by simp [space])]
  rfl

theorem conclude_word (solid : token.isSpace = false) :
    conclude length reading (token :: ahead) = reading.step token >>= fun next => conclude length next ahead := by
  rw [conclude, List.filter_cons_of_pos (by simp [solid]), List.foldlM_cons]
  cases reading.step token <;> rfl

/-- The marks behind a word that is read. -/
def further (length : Nat) (reading : Reading) (token : Token) (ahead : List Token) : List Mark :=
  (reading.taken? token).toList.map (.took · token) ++
    match reading.step token with
    | .ok next => next.trail length ahead
    | .error _ => []

theorem trail_space (space : token.isSpace = true) :
    reading.trail length (token :: ahead) = .met token :: reading.trail length ahead := by
  rw [trail, if_pos space]

theorem trail_word (solid : token.isSpace = false) :
    reading.trail length (token :: ahead) = .met token :: reading.further length token ahead := by
  rw [trail, if_neg (by simp [solid]), further]
  cases reading.taken? token <;> rfl

theorem met_further (length : Nat) (reading : Reading) (token : Token) (ahead : List Token) :
    met (reading.further length token ahead) =
      match reading.step token with
      | .ok next => met (next.trail length ahead)
      | .error _ => [] := by
  rw [further, met_append]
  cases reading.taken? token <;> cases reading.step token <;> rfl

theorem met_trail_le (length : Nat) (reading : Reading) (ahead : List Token) :
    met (reading.trail length ahead) <+: ahead ++ [Token.ending length] := by
  induction ahead generalizing reading with
  | nil => exact List.prefix_rfl
  | cons token ahead ih =>
      cases solid : token.isSpace with
      | true =>
          rw [trail_space solid, met_met_cons, List.cons_append, List.prefix_cons_inj]
          exact ih reading
      | false =>
          rw [trail_word solid, met_met_cons, List.cons_append, List.prefix_cons_inj, met_further]
          cases reading.step token with
          | ok next => exact ih next
          | error fault => exact List.nil_prefix

theorem met_trail_of_ok {roll : Roll} (done : conclude length reading ahead = .ok roll) :
    met (reading.trail length ahead) = ahead ++ [Token.ending length] := by
  induction ahead generalizing reading with
  | nil => rfl
  | cons token ahead ih =>
      cases solid : token.isSpace with
      | true =>
          rw [conclude_space solid] at done
          rw [trail_space solid, met_met_cons, ih done, List.cons_append]
      | false =>
          rw [conclude_word solid] at done
          rw [trail_word solid, met_met_cons, met_further, List.cons_append, List.cons_inj_right]
          cases stepped : reading.step token with
          | ok next =>
              rw [stepped] at done
              exact ih done
          | error fault =>
              rw [stepped] at done
              cases done

end Reading

/-- A reading meets the script from its start. -/
theorem met_trail_prefix (cs : List Char) : met (trail cs) <+: script cs := Reading.met_trail_le _ _ _

theorem met_trail_of_read {cs : List Char} {roll : Roll} (done : read cs = .ok roll) : met (trail cs) = script cs :=
  Reading.met_trail_of_ok done

/-- Every word is handed out once, or twice in a row. -/
inductive Stutters : List Token → List Token → Prop where
  | nil : Stutters [] []
  | once {words handed : List Token} (word : Token) (stutters : Stutters words handed) :
      Stutters (words ++ [word]) (handed ++ [word])
  | twice {words handed : List Token} (word : Token) (stutters : Stutters words handed) :
      Stutters (words ++ [word]) (handed ++ [word, word])

variable {words handed : List Token}

theorem length_le_of_stutters (stutters : Stutters words handed) : handed.length ≤ 2 * words.length := by
  induction stutters with
  | nil => exact Nat.le_refl 0
  | once word _ ih | twice word _ ih =>
      simp only [List.length_append, List.length_cons, List.length_nil]
      omega

theorem count_le_of_stutters (stutters : Stutters words handed) (token : Token) :
    handed.count token ≤ 2 * words.count token := by
  induction stutters with
  | nil => exact Nat.le_refl 0
  | once word _ ih | twice word _ ih =>
      simp only [List.count_append, List.count_cons, List.count_nil]
      split <;> omega

theorem mem_of_stutters (stutters : Stutters words handed) {token : Token} (found : token ∈ handed) :
    token ∈ words := by
  have bound := count_le_of_stutters stutters token
  have given := List.count_pos_iff.mpr found
  exact List.count_pos_iff.mp (by omega)

end Tabletop.Notation
