import Tabletop.Notation.Token

/-!
# From characters to tokens

At each place the longest token wins. Drop tokens win over a die of the same length, so `dh` and `dl` are never dice;
a character that opens no token is a token of its own. Tokens leave nothing out: their texts join to the notation.
-/

namespace Tabletop.Notation

set_option autoImplicit false

def byteCount (cs : List Char) : Nat := cs.foldl (fun count c => count + c.utf8Size) 0

theorem byteCount_append (left right : List Char) : byteCount (left ++ right) = byteCount left + byteCount right := by
  have shift : ∀ (cs : List Char) (count : Nat),
      cs.foldl (fun count c => count + c.utf8Size) count = count + byteCount cs := by
    intro cs
    induction cs with
    | nil => exact fun _ => rfl
    | cons c rest ih =>
        intro count
        have first : byteCount (c :: rest) = 0 + c.utf8Size + byteCount rest := ih (0 + c.utf8Size)
        rw [List.foldl_cons, ih, first]
        omega
  rw [byteCount, List.foldl_append, shift]
  rfl

def isSpace (c : Char) : Bool := c == ' ' || c == '\t' || c == '\r' || c == '\n'

def digitRun (cs : List Char) : Nat := (cs.takeWhile Char.isDigit).length

def spaceRun (cs : List Char) : Nat := (cs.takeWhile isSpace).length

/-- What follows the letter of a die: digits, or else one letter, or nothing. -/
def dieRun (cs : List Char) : Nat :=
  match cs with
  | [] => 0
  | c :: _ => if c.isAlpha then 1 else digitRun cs

/-- The kind of the token that opens with the character, and how many characters after it belong to the token. -/
def classify (c : Char) (rest : List Char) : Kind × Nat :=
  match c, rest with
  | 'd', 'h' :: rest => (.limit .dropHighest, digitRun rest + 1)
  | 'd', 'l' :: rest => (.limit .dropLowest, digitRun rest + 1)
  | 'd', rest => (.die, dieRun rest)
  | 'D', rest => (.die, dieRun rest)
  | 'k', 'h' :: rest => (.limit .keepHighest, digitRun rest + 1)
  | 'k', 'l' :: rest => (.limit .keepLowest, digitRun rest + 1)
  | '!', '!' :: _ => (.explode .compounded, 1)
  | '!', 'p' :: _ => (.explode .penetrating, 1)
  | '!', _ => (.explode .exploding, 0)
  | 'r', 'o' :: _ => (.reroll true, 1)
  | 'r', _ => (.reroll false, 0)
  | 's', 'd' :: _ => (.sort .descending, 1)
  | 's', _ => (.sort .ascending, 0)
  | 'f', _ => (.failure, 0)
  | '+', _ => (.plus, 0)
  | '-', _ => (.minus, 0)
  | '=', _ => (.compare .equal, 0)
  | '>', _ => (.compare .greater, 0)
  | '<', _ => (.compare .less, 0)
  | '\x7b', _ => (.opening, 0)
  | '\x7d', _ => (.closing, 0)
  | ',', _ => (.comma, 0)
  | c, rest =>
    if isSpace c then (.space, spaceRun rest)
    else if c.isDigit then (.number, digitRun rest)
    else (.illegal, 0)

def tokensFrom (start : Nat) : List Char → List Token
  | [] =>
    []
  | c :: rest =>
    let run := classify c rest
    let text := c :: rest.take run.2
    let stop := start + byteCount text
    ⟨run.1, text, ⟨start, stop⟩⟩ :: tokensFrom stop (rest.drop run.2)
termination_by cs => cs.length
decreasing_by
  rw [List.length_drop, List.length_cons]
  omega

theorem flatMap_text_tokensFrom (start : Nat) (cs : List Char) : (tokensFrom start cs).flatMap (·.text) = cs := by
  fun_induction tokensFrom start cs with
  | case1 start => rfl
  | case2 start c rest run text stop ih =>
      rw [List.flatMap_cons, ih]
      exact congrArg (c :: ·) (List.take_append_drop run.2 rest)

def tokens (cs : List Char) : List Token := tokensFrom 0 cs

end Tabletop.Notation
