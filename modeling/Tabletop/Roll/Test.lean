import Tabletop.Whole

/-!
# Tests on a value

A relation and a threshold. Where a letter or sign already announces a test, an equality is written as its bare
threshold; a success test has nothing before it and keeps its sign.
-/

namespace Tabletop

set_option autoImplicit false

inductive Relation where
  | equal
  | greater
  | less
deriving DecidableEq

structure Test where
  relation : Relation
  threshold : Whole
deriving DecidableEq

namespace Relation

def sign : Relation → Char
  | equal => '='
  | greater => '>'
  | less => '<'

end Relation

namespace Test

def accepts (test : Test) (value : Whole) : Bool :=
  match test.relation with
  | .equal => value.val == test.threshold.val
  | .greater => test.threshold.val < value.val
  | .less => value.val < test.threshold.val

def text (test : Test) : List Char := test.relation.sign :: test.threshold.text

/-- The test after an announcing letter or sign, which spares the sign of an equality. -/
def announcedText (test : Test) : List Char :=
  match test.relation with
  | .equal => test.threshold.text
  | _ => test.text

end Test

end Tabletop
