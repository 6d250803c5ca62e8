import Tabletop.Count
import Tabletop.Report
import Tabletop.Roller.Generator
import Tabletop.Text.Blank

/-!
# The prompt

The prompt reads notations line by line and answers each with a report or an error. Every line has the whole budget to
itself, whatever the lines before it used up; only the source of faces goes on. Blank lines get no answer. Without a
budget an evaluation may never end, and then there is no answer and no next line either.
-/

namespace Tabletop.Prompt

set_option autoImplicit false

structure Options where
  seed : Option Nat
  budget : Option Nat
deriving DecidableEq

inductive Misuse where
  | missingValue (argument : List Char)
  | unknownArgument (argument : List Char)
  | badSeed (fault : Count.Fault)
  | badLimit (fault : Count.Fault)
deriving DecidableEq

inductive Output where
  | prompt
  | report (line : List Char)
  | refusal (message : List Char)
deriving DecidableEq

/-- All that a whole conversation shows, and the status with which it ends, if it does. -/
structure Transcript where
  shown : List Char
  complaints : List Char
  status : Nat
deriving DecidableEq

namespace Options

def usual : Options := ⟨none, some Session.usualBudget⟩

/-- Arguments come in pairs of a name and a count. A budget of 0 stands for none. -/
def readOn (options : Options) : List (List Char) → Except Misuse Options
  | [] =>
    .ok options
  | [argument] =>
    .error (.missingValue argument)
  | argument :: value :: rest =>
    if argument = "--seed".toList then
      match Count.read value with
      | .ok seed => readOn { options with seed := some seed } rest
      | .error fault => .error (.badSeed fault)
    else if argument = "--max-rolls".toList then
      match Count.read value with
      | .ok limit => readOn { options with budget := if limit = 0 then none else some limit } rest
      | .error fault => .error (.badLimit fault)
    else
      .error (.unknownArgument argument)

def read (arguments : List (List Char)) : Except Misuse Options := usual.readOn arguments

end Options

namespace Misuse

def reason : Misuse → List Char
  | missingValue argument => "missing value for ".toList ++ argument
  | unknownArgument argument => "unknown argument ".toList ++ argument
  | badSeed fault => "bad seed: ".toList ++ fault.message
  | badLimit fault => "bad limit: ".toList ++ fault.message

def usage : List Char := "usage: repl [--seed <u64>] [--max-rolls <n>]".toList

def message (misuse : Misuse) : List Char := Text.quoted (misuse.reason ++ '\n' :: usage)

end Misuse

namespace Output

/-- What is answered where a report ends in this way. What never ends has no answer. -/
def ofOutcome? : Except Refusal (List Char) → Option Output
  | .ok line => some (.report line)
  | .error (.unfinished .endless) => none
  | .error cause => some (.refusal cause.message)

def shown : Output → List Char
  | prompt => ['>', ' ']
  | report line => line ++ ['\n']
  | refusal _ => []

def complaint : Output → List Char
  | refusal message => "Error: ".toList ++ message ++ ['\n']
  | _ => []

end Output

variable {σ : Type}

def answer (roller : Roller σ) (session : Session σ) (line : List Char) : Option (List Output × Session σ) :=
  let cs := Text.trim line
  if cs.isEmpty then some ([], session)
  else
    let run := session.reset.report roller cs
    (Output.ofOutcome? run.outcome).map fun output => ([output], run.session)

/-- The answers to the lines, with a prompt before each line and one at the end. A line that is never answered is the
last one that is read. -/
def converse (roller : Roller σ) (session : Session σ) : List (List Char) → List Output
  | [] =>
    [.prompt]
  | line :: rest =>
    match answer roller session line with
    | some (outputs, later) => .prompt :: outputs ++ converse roller later rest
    | none => [.prompt]

/-- Lines end at a line feed; the last one may also end with the text. A carriage return before the line feed stays
with the line, where it is white space. -/
def lines (cs : List Char) : List (List Char) :=
  let pieces := cs.splitOn '\n'
  if pieces.getLast? = some [] then pieces.dropLast else pieces

def transcript (spareSeed : Nat) (arguments : List (List Char)) (input : List Char) : Transcript :=
  match Options.read arguments with
  | .error misuse =>
    ⟨[], (Output.refusal misuse.message).complaint, 1⟩
  | .ok options =>
    let session := Session.start options.budget (mkStdGen (options.seed.getD spareSeed))
    let outputs := converse Roller.generator session (lines input)
    ⟨outputs.flatMap Output.shown, outputs.flatMap Output.complaint, 0⟩

end Tabletop.Prompt
