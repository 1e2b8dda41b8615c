/-
  FlowDocs/Expression/Operator.lean
  =================================
  **The eleven binary operators.**

  An operand is an optional value: `none` is the undefined operand that a missing
  reference leaves behind.  Equality and order are defined on every pair of
  operands.  Arithmetic wants two numbers, computes on doubles and is undefined
  for anything else and for a result that is no finite number; dividing by zero
  gives zero.
-/
import FlowDocs.Json.Value

namespace FlowDocs

inductive Operator where
  | eq
  | ne
  | gt
  | lt
  | ge
  | le
  | add
  | sub
  | mul
  | div
  | rem
deriving DecidableEq, Repr

namespace Operator

def all : List Operator := [.eq, .ne, .ge, .le, .gt, .lt, .add, .sub, .mul, .div, .rem]

def symbol : Operator → List Char
  | .eq => ['=', '=']
  | .ne => ['!', '=']
  | .gt => ['>']
  | .lt => ['<']
  | .ge => ['>', '=']
  | .le => ['<', '=']
  | .add => ['+']
  | .sub => ['-']
  | .mul => ['*']
  | .div => ['/']
  | .rem => ['%']

def ofSymbol? : List Char → Option Operator
  | ['=', '='] => some .eq
  | ['!', '='] => some .ne
  | ['>'] => some .gt
  | ['<'] => some .lt
  | ['>', '='] => some .ge
  | ['<', '='] => some .le
  | ['+'] => some .add
  | ['-'] => some .sub
  | ['*'] => some .mul
  | ['/'] => some .div
  | ['%'] => some .rem
  | _ => none

/-- How tightly the operator binds: comparisons least, products most. -/
def precedence : Operator → Nat
  | .eq | .ne | .gt | .lt | .ge | .le => 1
  | .add | .sub => 2
  | .mul | .div | .rem => 3

/-- The symbols are read back as they are written. -/
theorem ofSymbol?_symbol (op : Operator) : ofSymbol? op.symbol = some op := by
  cases op <;> rfl

/-! ### Equality and order -/

/-- Equality without conversion: numbers by value, whatever their kind; all other
    values by structure; the undefined operand equals itself only. -/
def equals : Option Json → Option Json → Bool
  | none, none => true
  | some (.num a), some (.num b) => a.toFloat == b.toFloat
  | some a, some b => a.same b
  | _, _ => false

/-- The order of two doubles; none when one of them is not a number. -/
def compareDoubles (x y : Float) : Option Ordering :=
  if x < y then some .lt
  else if x == y then some .eq
  else if y < x then some .gt
  else none

/-- The order of two strings, by their code points. -/
def compareTexts (a b : String) : Ordering :=
  if a < b then .lt else if a = b then .eq else .gt

/-- Two numbers, two strings or two booleans are ordered; no other pair is. -/
def order : Option Json → Option Json → Option Ordering
  | some (.num a), some (.num b) => compareDoubles a.toFloat b.toFloat
  | some (.str a), some (.str b) => some (compareTexts a b)
  | some (.bool a), some (.bool b) => some (compare a b)
  | _, _ => none

/-! ### Arithmetic -/

def arithmetic (f : Float → Float → Float) : Option Json → Option Json → Option Json
  | some (.num a), some (.num b) => (Number.ofFloat? (f a.toFloat b.toFloat)).map .num
  | _, _ => none

/-- The quotient, zero when the divisor is zero. -/
def quotient (x y : Float) : Float := if y == 0.0 then 0.0 else x / y

/-- The remainder with the sign of the dividend, zero when the divisor is zero. -/
def remainder (x y : Float) : Float := if y == 0.0 then 0.0 else Numeric.remainder x y

def apply (op : Operator) (left right : Option Json) : Option Json :=
  match op with
  | .eq => some (.bool (equals left right))
  | .ne => some (.bool (!equals left right))
  | .gt => some (.bool (order left right == some .gt))
  | .lt => some (.bool (order left right == some .lt))
  | .ge => some (.bool (order left right == some .gt || order left right == some .eq))
  | .le => some (.bool (order left right == some .lt || order left right == some .eq))
  | .add => arithmetic (· + ·) left right
  | .sub => arithmetic (· - ·) left right
  | .mul => arithmetic (· * ·) left right
  | .div => arithmetic quotient left right
  | .rem => arithmetic remainder left right

end Operator
end FlowDocs
