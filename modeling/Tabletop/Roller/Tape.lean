import Tabletop.Roller.Basic

/-!
# Rollers that read a tape

A tape is a list of numbers read in a circle. Three rollers read it: one takes its numbers as faces and wraps them into
range, one hands them on as they are, and one draws evenly from words of 32 random bits.
-/

namespace Tabletop

set_option autoImplicit false

structure Tape where
  entries : List Nat
  ahead : List Nat

namespace Tape

def ofList (entries : List Nat) : Tape := ⟨entries, entries⟩

def next (tape : Tape) : Option Nat × Tape :=
  match tape.ahead, tape.entries with
  | entry :: ahead, _ => (some entry, { tape with ahead })
  | [], entry :: ahead => (some entry, { tape with ahead })
  | [], [] => (none, tape)

end Tape

namespace Roller

/-- A face larger than the die goes around it, 0 counts as 1, and an empty script always shows 1. -/
def scripted : Roller Tape where
  sample sides tape :=
    match tape.next with
    | (some face, tape) => ((max face 1 - 1) % sides.count + 1, tape)
    | (none, tape) => (1, tape)

def verbatim : Roller Tape where
  sample _ tape :=
    match tape.next with
    | (some sample, tape) => (sample, tape)
    | (none, tape) => (0, tape)

def freeBits (n : Nat) : Nat := 31 - n.log2

/-- Multiplying a word by the sides splits it into a face and a remainder; words whose remainder falls into the short
last stretch are passed over, so that all faces are equally likely. -/
def evenFace? (sides : Sides) (word : Nat) : Option Nat :=
  let product := word * sides.count
  if product % 4294967296 < sides.count <<< freeBits sides.count then some (product / 4294967296 + 1) else none

def firstEven (sides : Sides) : Nat → Tape → Nat × Tape
  | 0, tape =>
    (1, tape)
  | words + 1, tape =>
    let read := tape.next
    match evenFace? sides (read.1.getD 0) with
    | some face => (face, read.2)
    | none => firstEven sides words read.2

/-- An even draw from the words of the tape, 0 if it is empty. Once around the tape is as far as a draw goes: if no word
there gives a face, none ever will. -/
def even : Roller Tape where
  sample sides tape := firstEven sides (tape.entries.length + 1) tape

end Roller

end Tabletop
