import Tabletop.Notation.Reading
import Tabletop.Roll.Canonical
import Tabletop.Session

/-!
# One line per notation

A notation is read, thrown in a session and reported in one line that names the roll in its canonical notation, the
symbols of its faces and the total. A notation that cannot be read leaves the session alone.
-/

namespace Tabletop

set_option autoImplicit false

/-- Why there is no report. -/
inductive Refusal where
  | unreadable (fault : Notation.Fault)
  | unfinished (mishap : Mishap)
deriving DecidableEq

namespace Refusal

def message : Refusal → List Char
  | unreadable fault => fault.message
  | unfinished mishap => mishap.message

end Refusal

namespace Result

def text (result : Result) : List Char := [',', ' '].intercalate (result.faces.map (·.symbol.toList))

end Result

namespace Report

def line (roll : Roll) (result : Result) : List Char :=
  "Rolled \"".toList ++ roll.canonical ++ "\" and got ".toList ++ result.text ++ " for a total of ".toList ++
    result.total.text

end Report

namespace Session

variable {σ : Type}

def evaluateText (roller : Roller σ) (cs : List Char) (session : Session σ) : Run σ Refusal Result :=
  match Notation.read cs with
  | .error fault => ⟨.error (.unreadable fault), session, []⟩
  | .ok roll => (session.evaluate roller roll).mapError .unfinished

def report (roller : Roller σ) (cs : List Char) (session : Session σ) : Run σ Refusal (List Char) :=
  match Notation.read cs with
  | .error fault => ⟨.error (.unreadable fault), session, []⟩
  | .ok roll => ((session.evaluate roller roll).map (Report.line roll)).mapError .unfinished

end Session

end Tabletop
