/-
  FlowDocs/Expression/Token.lean
  ==============================
  **What an expression is made of.**

  A token is a literal value, an operator or a reference to something in the
  context, kept as it was written.
-/
import FlowDocs.Expression.Operator

namespace FlowDocs

inductive Token where
  | literal (value : Json)
  | operator (op : Operator)
  | reference (path : String)
deriving DecidableEq, Repr

/-- A character of a number: an ASCII digit or a point. -/
def isNumberChar (c : Char) : Bool := c.isDigit || c == '.'

/-- A character a name may start with: an ASCII letter, `_` or `$`. -/
def isNameStart (c : Char) : Bool := c.isAlpha || c == '_' || c == '$'

/-- A character a name may go on with; points and brackets belong to names because
    a name is a whole path. -/
def isNameChar (c : Char) : Bool :=
  c.isAlphanum || c == '_' || c == '.' || c == '$' || c == '[' || c == ']'

namespace Token

/-- The names that stand for values instead of referring to something. -/
def keyword? (name : List Char) : Option Json :=
  if name = ['t', 'r', 'u', 'e'] then some (.bool true)
  else if name = ['f', 'a', 'l', 's', 'e'] then some (.bool false)
  else if name = ['n', 'u', 'l', 'l'] then some .null
  else none

def ofName (name : List Char) : Token :=
  match keyword? name with
  | some value => .literal value
  | none => .reference (String.ofList name)

/-- The digits before the first point, and the digits between it and the second
    point if there is one. -/
def splitNumber (run : List Char) : List Char × List Char :=
  (run.takeWhile (· ≠ '.'), ((run.dropWhile (· ≠ '.')).drop 1).takeWhile (· ≠ '.'))

def digitsValue (digits : List Char) : Nat :=
  digits.foldl (fun n c => n * 10 + (c.toNat - 48)) 0

/-- The literal of a run of digits and points: the number before the second point,
    to the nearest double.  There is none without a digit before that point, or
    when the number is too large for a double. -/
def ofNumberRun? (run : List Char) : Option Token :=
  let (whole, fraction) := splitNumber run
  if whole ++ fraction = [] then none
  else
    let x := Float.ofScientific (digitsValue (whole ++ fraction)) true fraction.length
    (Number.ofFloat? x).map fun n => .literal (.num n)

end Token
end FlowDocs
