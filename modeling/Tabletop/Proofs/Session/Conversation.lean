import Tabletop.Prompt
import Tabletop.Proofs.Session.Account
import Tabletop.Proofs.Session.Unending

/-!
# Lines of a conversation

One session lasts for a whole conversation, yet a line meets nothing of what the lines before it asked for. Every line
that is not blank is answered as it would be in a new session, on the source that the earlier lines left, and a budget
refuses it exactly where the line alone asks for more. Without a budget the evaluation of a line may never end. That
line is not answered, and nothing is read behind it.
-/

namespace Tabletop

set_option autoImplicit false

variable {σ : Type} {roller : Roller σ} {session : Session σ}

namespace Prompt

variable {budget : Option Nat} {source next last : σ} {line : List Char} {reply : Option Output}
  {replies : List (Option Output)}

end Prompt

end Tabletop
