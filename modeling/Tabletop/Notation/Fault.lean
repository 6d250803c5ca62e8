import Tabletop.Notation.Token
import Tabletop.Text.Quoted

/-!
# Faults of a notation

Why a notation cannot be read, and where. A group that is never closed is blamed on its opening brace.
-/

namespace Tabletop.Notation

set_option autoImplicit false

inductive Fault where
  | unexpectedToken (text : List Char) (span : Span)
  | unknownDie (text : List Char) (span : Span)
  | unterminatedGroup (opening : Span)
deriving DecidableEq

namespace Fault

def span : Fault → Span
  | unexpectedToken _ span => span
  | unknownDie _ span => span
  | unterminatedGroup opening => opening

/-- The text at fault, where the fault lies in one token. -/
def text? : Fault → Option (List Char)
  | unexpectedToken text _ => some text
  | unknownDie text _ => some text
  | unterminatedGroup _ => none

def message : Fault → List Char
  | unexpectedToken text span =>
    "found unexpected token ".toList ++ Text.quoted text ++ " at position ".toList ++ Decimal.digits span.start
  | unknownDie text span =>
    "unrecognised die type ".toList ++ Text.quoted text ++ " at position ".toList ++ Decimal.digits span.start
  | unterminatedGroup opening =>
    "unterminated group starting at position ".toList ++ Decimal.digits opening.start

end Fault

end Tabletop.Notation
