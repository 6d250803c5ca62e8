import Tabletop.Notation.Trail
import Tabletop.Report

/-!
# The journal

Records of what a notation went through, from its first token to its last throw. Tokens are the finest level; completed
rolls are for the curious; a budget that runs out is a warning. Single throws leave no record.
-/

namespace Tabletop

set_option autoImplicit false

inductive Level where
  | trace
  | debug
  | warn
deriving DecidableEq

structure Record where
  level : Level
  message : List Char
deriving DecidableEq

namespace Level

def name : Level → String
  | trace => "TRACE"
  | debug => "DEBUG"
  | warn => "WARN"

end Level

namespace Journal

/-- A result in full, face by face. -/
def faceText (face : Face) : List Char :=
  "DieRoll \x7b value: ".toList ++ face.value.text ++ ", symbol: ".toList ++ Text.quoted face.symbol.toList ++
    " \x7d".toList

def resultText (result : Result) : List Char :=
  "RollResult \x7b rolls: [".toList ++ [',', ' '].intercalate (result.faces.map faceText) ++ "], total: ".toList ++
    result.total.text ++ ", successes: ".toList ++ result.successes.text ++ " \x7d".toList

def ofMark : Notation.Mark → Record
  | .met token =>
    ⟨.trace, "scanned ".toList ++ token.kind.name.toList ++ ' ' :: Text.quoted token.text⟩
  | .took multiplier die =>
    ⟨.trace, "reading ".toList ++ multiplier.signedText ++ " as the multiplier of ".toList ++ Text.quoted die.text⟩

def ofEvent? : Event → Option Record
  | .threw _ _ =>
    none
  | .rolled roll result =>
    some ⟨.debug, "rolled ".toList ++ roll.canonical ++ " => ".toList ++ resultText result⟩
  | .exhausted limit =>
    some ⟨.warn, "roll budget of ".toList ++ Decimal.digits limit ++ " draws exhausted".toList⟩

/-- The records of one report. -/
def ofReport {σ : Type} (roller : Roller σ) (cs : List Char) (session : Session σ) : List Record :=
  (Notation.trail cs).map ofMark ++ (session.report roller cs).events.filterMap ofEvent?

end Journal

end Tabletop
