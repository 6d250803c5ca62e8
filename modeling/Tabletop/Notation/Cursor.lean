import Tabletop.Notation.Lexeme

/-!
# A cursor with one token of pushback

A cursor reads the tokens of a notation one by one and, at the end, the ending token for ever. The last token read can
be pushed back: the next read then returns it again. A pushback before anything was read waits for the first token.
-/

namespace Tabletop.Notation

set_option autoImplicit false

structure Cursor where
  ahead : List Token
  /-- The number of bytes of the notation. -/
  length : Nat
  last : Option Token
  pushedBack : Bool

namespace Cursor

def start (cs : List Char) : Cursor := ⟨tokens cs, byteCount cs, none, false⟩

def fresh (cursor : Cursor) : Token × Cursor :=
  match cursor.ahead with
  | [] =>
    let token := Token.ending cursor.length
    (token, { cursor with last := some token })
  | token :: ahead =>
    (token, { cursor with ahead, last := some token })

/-- One read: the token pushed back, if there is one, and otherwise a fresh one. -/
def scan (cursor : Cursor) : Token × Cursor :=
  match cursor.pushedBack, cursor.last with
  | true, some token => (token, { cursor with pushedBack := false })
  | _, _ => cursor.fresh

def unscan (cursor : Cursor) : Cursor := { cursor with pushedBack := true }

/-- What is left to read before every read is the ending token, counting a pushback as one more read. -/
def measure (cursor : Cursor) : Nat := 2 * cursor.ahead.length + cursor.pushedBack.toNat

theorem measure_scan_lt (cursor : Cursor) (space : cursor.scan.1.isSpace = true) :
    cursor.scan.2.measure < cursor.measure := by
  obtain ⟨ahead, length, last, pushedBack⟩ := cursor
  cases pushedBack with
  | false =>
      cases ahead with
      | nil => exact absurd space (by simp [scan, fresh, Token.ending, Token.isSpace])
      | cons token ahead =>
          simp only [scan, fresh, measure, List.length_cons, Bool.toNat_false]
          omega
  | true =>
      cases last with
      | none =>
          cases ahead with
          | nil => exact absurd space (by simp [scan, fresh, Token.ending, Token.isSpace])
          | cons token ahead =>
              simp only [scan, fresh, measure, List.length_cons, Bool.toNat_true]
              omega
      | some token =>
          simp only [scan, measure, Bool.toNat_true, Bool.toNat_false]
          omega

def skip (cursor : Cursor) : Token × Cursor :=
  if _ : cursor.scan.1.isSpace = true then skip cursor.scan.2 else cursor.scan
termination_by cursor.measure
decreasing_by exact measure_scan_lt cursor ‹_›

/-- One read that has nothing to show at the end. -/
def next (cursor : Cursor) : Option Token × Cursor :=
  let read := cursor.scan
  (if read.1.kind = .ending then none else some read.1, read.2)

inductive Move where
  | scan
  | skip
  | next
  | unscan
deriving DecidableEq

inductive Answer where
  | token (token : Token)
  | finished
  | pushedBack
deriving DecidableEq

def act (cursor : Cursor) : Move → Answer × Cursor
  | .scan =>
    let read := cursor.scan
    (.token read.1, read.2)
  | .skip =>
    let read := cursor.skip
    (.token read.1, read.2)
  | .next =>
    match cursor.next with
    | (some token, cursor) => (.token token, cursor)
    | (none, cursor) => (.finished, cursor)
  | .unscan =>
    (.pushedBack, cursor.unscan)

def answers (cursor : Cursor) : List Move → List Answer
  | [] =>
    []
  | move :: moves =>
    let acted := cursor.act move
    acted.1 :: answers acted.2 moves

end Cursor

end Tabletop.Notation
