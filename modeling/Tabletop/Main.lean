import Tabletop.Prompt

/-!
# The command line

Starts a session as the arguments say and keeps up the conversation until the input ends.
-/

namespace Tabletop.Terminal

set_option autoImplicit false

def put (outputs : List Prompt.Output) : IO Unit := do
  let out ← IO.getStdout
  let err ← IO.getStderr
  for output in outputs do
    out.putStr (String.ofList output.shown)
    err.putStr (String.ofList output.complaint)
  out.flush

partial def talk (input : IO.FS.Stream) (session : Session StdGen) : IO Unit := do
  put [.prompt]
  let line ← input.getLine
  if line.isEmpty then return
  let some (outputs, later) := Prompt.answer Roller.generator session line.toList | return
  put outputs
  talk input later

def run (arguments : List String) : IO UInt32 := do
  match Prompt.Options.read (arguments.map String.toList) with
  | .error misuse =>
    put [.refusal misuse.message]
    return 1
  | .ok options =>
    let seed ← match options.seed with
      | some seed => pure seed
      | none => IO.rand 0 2147483647
    talk (← IO.getStdin) (Session.start options.budget (mkStdGen seed))
    return 0

end Tabletop.Terminal

def main (arguments : List String) : IO UInt32 := Tabletop.Terminal.run arguments
