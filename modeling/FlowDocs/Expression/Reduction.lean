/-
  FlowDocs/Expression/Reduction.lean
  ==================================
  **Reducing a chain of operands and operators.**

  Expressions have no grouping, so a chain is reduced on two stacks.  An operand
  goes on the stack of values.  An operator first applies every pending operator
  that binds at least as tightly, which makes equal precedences associate to the
  left, and then waits itself.  Where operands are missing the undefined one
  stands in, and of operands without an operator between them the first one
  counts: the answer is the bottom of the stack.
-/
import FlowDocs.Expression.Operator

namespace FlowDocs

/-- A token whose references have been resolved. -/
inductive Item where
  | operand (value : Option Json)
  | operator (op : Operator)
deriving DecidableEq, Repr

namespace Reduction

/-- The values, the last one first. -/
abbrev Values := List (Option Json)

/-- Apply an operator to the two topmost values, the right operand on top.  A
    missing operand is undefined. -/
def collapse (op : Operator) : Values → Values
  | right :: left :: values => op.apply left right :: values
  | [right] => [op.apply none right]
  | [] => [op.apply none none]

/-- Apply the pending operators down to the first that binds less tightly than
    `level`. -/
def unwind (level : Nat) (values : Values) : List Operator → Values × List Operator
  | [] => (values, [])
  | op :: pending =>
    if op.precedence < level then (values, op :: pending)
    else unwind level (collapse op values) pending

def push (state : Values × List Operator) : Item → Values × List Operator
  | .operand value => (value :: state.1, state.2)
  | .operator op =>
    let (values, pending) := unwind op.precedence state.1 state.2
    (values, op :: pending)

/-- Take the items in one after another and apply what is left pending. -/
def run (items : List Item) : Values :=
  let (values, pending) := items.foldl push ([], [])
  (unwind 0 values pending).1

end Reduction

/-- The value of a chain: the bottom of the values left over. -/
def reduce (items : List Item) : Option Json := ((Reduction.run items).getLast?).join

end FlowDocs
