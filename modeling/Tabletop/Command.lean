import Tabletop.Report

/-!
# Commands to a session

All that can be asked of a session, one thing at a time. Every command leaves a session behind, also one that is
refused, and the next command goes on from there.
-/

namespace Tabletop

set_option autoImplicit false

inductive Command where
  | evaluate (roll : Roll)
  | evaluateText (cs : List Char)
  | report (cs : List Char)
  | throwDie (die : Die)
  | throwDice (die : Die) (count : Nat)
  | reset
  | renew (budget : Option Nat)
deriving DecidableEq

inductive Reply where
  | result (result : Result)
  | line (line : List Char)
  | face (face : Face)
  | faces (faces : List Face)
  | ready
deriving DecidableEq

namespace Session

variable {σ : Type}

def obey (roller : Roller σ) (session : Session σ) : Command → Run σ Refusal Reply
  | .evaluate roll =>
    ((session.evaluate roller roll).map .result).mapError .unfinished
  | .evaluateText cs =>
    (session.evaluateText roller cs).map .result
  | .report cs =>
    (session.report roller cs).map .line
  | .throwDie die =>
    ((session.throwDie roller die).map .face).mapError .unfinished
  | .throwDice die count =>
    ((session.throwDice roller die count).map .faces).mapError .unfinished
  | .reset =>
    ⟨.ok .ready, session.reset, []⟩
  | .renew budget =>
    ⟨.ok .ready, session.renew budget, []⟩

/-- The runs of the commands, each on the session that the one before it left. -/
def obeyAll (roller : Roller σ) (session : Session σ) : List Command → List (Run σ Refusal Reply)
  | [] =>
    []
  | command :: commands =>
    let run := session.obey roller command
    run :: obeyAll roller run.session commands

end Session

end Tabletop
