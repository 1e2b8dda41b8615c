/-
  FlowDocs/Json/Number.lean
  =========================
  **Numbers of a document: integers and doubles.**

  A number keeps the kind it was written in: `5` is an integer, `5.0` a double.
  Arithmetic goes through doubles and comes back by `Number.ofFloat?`, which
  prefers the integer kind wherever every neighbouring integer is a double too.
  That makes `2 + 3` an integer again and leaves no second spelling for zero.
-/
import FlowDocs.Numeric.Double

namespace FlowDocs

/-- A number of a document.  Integers are those of 64 bits, signed or unsigned. -/
inductive Number where
  | integer (value : Int)
  | double (value : Float)
deriving DecidableEq, Repr

namespace Number

/-- The largest magnitude up to which every integer and both its neighbours are
    doubles, `2 ^ 53 - 1`. -/
def maxExact : Nat := 0x1FFFFFFFFFFFFF

/-- The double nearest to the number. -/
def toFloat : Number → Float
  | .integer n => Float.ofInt n
  | .double x => x

/-- The number a computed double stands for: an integer where it is integral and
    of magnitude at most `maxExact`, a double where it is otherwise finite, and
    nothing where it is infinite or not a number. -/
def ofFloat? (x : Float) : Option Number :=
  match Numeric.integer? x with
  | some n => if n.natAbs ≤ maxExact then some (.integer n) else some (.double x)
  | none => if x.isFinite then some (.double x) else none

/-- Equality of numbers nested inside arrays and objects: the kinds agree, and
    then the values. -/
def same : Number → Number → Bool
  | .integer a, .integer b => a == b
  | .double x, .double y => x == y
  | _, _ => false

example : ofFloat? 5.0 = some (.integer 5) ∧ ofFloat? (-0.0) = some (.integer 0) := by decide
example : ofFloat? (1.0 / 0.0) = none := by decide

end Number
end FlowDocs
