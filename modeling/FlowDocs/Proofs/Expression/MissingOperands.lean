/-
  FlowDocs/Proofs/Expression/MissingOperands.lean
  ===============================================
  **Arithmetic without enough operands is undefined.**

  Nothing makes operands and operators alternate.  An operator that finds fewer than two
  values takes undefined ones for those that are missing, and when it is arithmetic its
  result is undefined and the bottom of the stack.  The bottom is the answer, and no
  arithmetic operator that comes later gives it a value again (`Sunk.collapse`).

  The invariant counts instead of following the order: the values are as many more than the
  pending operators as the operands read are more than the operators read, unless the bottom
  is undefined already (`Balanced`).  It is kept by every step (`Balanced.push`), so in the end
  either the bottom is undefined or no operand is in excess, and then nothing is left on the
  stack.
-/
import FlowDocs.Proofs.Expression.Arithmetic
import Mathlib

namespace FlowDocs

/-! ### Operands and operators -/

def Item.isOperator : Item → Bool
  | .operator _ => true
  | .operand _ => false

def Token.isOperator : Token → Bool
  | .operator _ => true
  | .literal _ | .reference _ => false

/-- By how many the operands are more than the operators. -/
def surplus (items : List Item) : Int :=
  items.countP (! Item.isOperator ·) - items.countP Item.isOperator

theorem surplus_cons (item : Item) (items : List Item) :
    surplus (item :: items) = surplus [item] + surplus items := by
  simp only [surplus, List.countP_cons, List.countP_nil]
  omega

/-- Resolving makes an operand of every token but the operators. -/
theorem surplus_resolveAll (supply : Supply) (context : Context) (tokens : List Token) :
    surplus (Token.resolveAll supply context tokens) =
      tokens.countP (! Token.isOperator ·) - tokens.countP Token.isOperator := by
  induction tokens generalizing supply with
  | nil => rfl
  | cons token tokens ih =>
    have hsame : (token.resolve supply.left.here context).isOperator = token.isOperator := by
      cases token <;> rfl
    rw [Token.resolveAll, surplus_cons, ih, surplus]
    simp only [List.countP_cons, List.countP_nil, hsame]
    omega

theorem Token.operator_of_mem_resolveAll {supply : Supply} {context : Context}
    {tokens : List Token} {op : Operator}
    (h : .operator op ∈ resolveAll supply context tokens) : .operator op ∈ tokens := by
  induction tokens generalizing supply with
  | nil => cases h
  | cons token tokens ih =>
    rw [resolveAll, List.mem_cons] at h
    rcases h with heq | hrest
    · cases token <;> cases heq
      exact List.mem_cons_self
    · exact List.mem_cons_of_mem token (ih hrest)

namespace Reduction

/-! ### The bottom of the stack -/

/-- The bottom of the values is undefined. -/
inductive Sunk : Values → Prop
  | bottom : Sunk [none]
  | push {values : Values} (value : Option Json) (h : Sunk values) : Sunk (value :: values)

theorem Sunk.getLast? {values : Values} (h : Sunk values) : values.getLast? = some none := by
  induction h with
  | bottom => rfl
  | push value h ih => rw [List.getLast?_cons, ih, Option.getD_some]

section
variable {values : Values} {op : Operator} (hop : op.onDoubles?.isSome)
include hop

/-- Arithmetic with nothing on its left, alone on the stack, is an undefined bottom. -/
theorem sunk_apply (right : Option Json) : Sunk [op.apply none right] := by
  rw [Operator.apply_none_left hop]
  exact .bottom

/-- **An undefined bottom stays undefined.** -/
theorem Sunk.collapse (h : Sunk values) : Sunk (collapse op values) := by
  cases h with
  | bottom => exact sunk_apply hop none
  | push right h =>
    cases h with
    | bottom => exact sunk_apply hop right
    | push left h => exact .push _ h

/-- Applying an operator takes one value off, or there was none to take. -/
theorem collapse_cases (values : Values) :
    Sunk (collapse op values) ∨ (collapse op values).length + 1 = values.length := by
  cases values with
  | nil => exact Or.inl (sunk_apply hop none)
  | cons right values =>
    cases values with
    | nil => exact Or.inl (sunk_apply hop right)
    | cons left values => exact Or.inr rfl

end

/-! ### The balance of values and pending operators -/

/-- Only arithmetic is pending, and the bottom is undefined or there are `balance` values
    more than pending operators. -/
structure Balanced (balance : Int) (state : Values × List Operator) : Prop where
  arithmetic : ∀ op ∈ state.2, op.onDoubles?.isSome
  level : Sunk state.1 ∨ (state.1.length : Int) - state.2.length = balance

variable {balance : Int} {state : Values × List Operator}

theorem Balanced.unwind (level : Nat) {values : Values} {pending : List Operator}
    (h : Balanced balance (values, pending)) : Balanced balance (unwind level values pending) := by
  induction pending generalizing values with
  | nil => exact h
  | cons op pending ih =>
    rw [Reduction.unwind]
    split
    · exact h
    · obtain ⟨hop, hpending⟩ := List.forall_mem_cons.mp h.arithmetic
      apply ih
      refine ⟨hpending, ?_⟩
      rcases h.level with hsunk | hlevel
      · exact Or.inl (hsunk.collapse hop)
      · -- an operator that is applied leaves the pending ones and costs one value
        rcases collapse_cases hop values with hsunk | hlength
        · exact Or.inl hsunk
        · right
          simp only [List.length_cons] at hlevel ⊢
          omega

theorem Balanced.push {item : Item} (h : Balanced balance state)
    (hitem : ∀ op, item = .operator op → op.onDoubles?.isSome) :
    Balanced (balance + surplus [item]) (push state item) := by
  cases item with
  | operand value =>
    have hsurplus : surplus [.operand value] = 1 := rfl
    refine ⟨h.arithmetic, ?_⟩
    rcases h.level with hsunk | hlevel
    · exact Or.inl (.push value hsunk)
    · right
      simp only [Reduction.push, List.length_cons, hsurplus]
      omega
  | operator op =>
    have hsurplus : surplus [.operator op] = -1 := rfl
    have hunwound := h.unwind op.precedence
    refine ⟨List.forall_mem_cons.mpr ⟨hitem op rfl, hunwound.arithmetic⟩, ?_⟩
    rcases hunwound.level with hsunk | hlevel
    · exact Or.inl hsunk
    · right
      simp only [Reduction.push, List.length_cons, hsurplus]
      omega

theorem Balanced.foldl {items : List Item} (h : Balanced balance state)
    (hitems : ∀ op, .operator op ∈ items → op.onDoubles?.isSome) :
    Balanced (balance + surplus items) (items.foldl Reduction.push state) := by
  induction items generalizing balance state with
  | nil =>
    have hsurplus : surplus [] = 0 := rfl
    rw [hsurplus, Int.add_zero]
    exact h
  | cons item items ih =>
    have hitem : ∀ op, item = .operator op → op.onDoubles?.isSome := by
      rintro op rfl
      exact hitems op List.mem_cons_self
    rw [surplus_cons, ← Int.add_assoc, List.foldl_cons]
    exact ih (h.push hitem) fun op hop => hitems op (List.mem_cons_of_mem item hop)

theorem unwind_zero (values : Values) (pending : List Operator) :
    (unwind 0 values pending).2 = [] := by
  induction pending generalizing values with
  | nil => rfl
  | cons op pending ih =>
    rw [unwind_cons_of_le (Nat.zero_le _)]
    exact ih _

/-- With no operand in excess the bottom is undefined, or there is none. -/
theorem run_of_surplus {items : List Item}
    (harithmetic : ∀ op, .operator op ∈ items → op.onDoubles?.isSome)
    (hmissing : surplus items ≤ 0) : Sunk (run items) ∨ run items = [] := by
  have hstart : Balanced 0 ([], []) := ⟨List.forall_mem_nil _, Or.inr rfl⟩
  have hend := (hstart.foldl harithmetic).unwind 0
  rcases hend.level with hsunk | hlevel
  · exact Or.inl hsunk
  · right
    -- nothing is pending any more, so as many values are left as there are operands in excess
    rw [unwind_zero, List.length_nil] at hlevel
    change ((run items).length : Int) - (0 : Nat) = 0 + surplus items at hlevel
    apply List.eq_nil_of_length_eq_zero
    omega

end Reduction

/-- **Dangling arithmetic is undefined.**  A list of tokens with no operators but arithmetic
    ones, and no more operands than operators, has no value: whatever the operands are, and
    wherever in the list one is missing. -/
theorem evaluateChain_of_missing_operands (supply : Supply) (context : Context)
    {tokens : List Token}
    (harithmetic : ∀ op, .operator op ∈ tokens →
      op ∈ Grammar.sumOperators ++ Grammar.productOperators)
    (hmissing : tokens.countP (! Token.isOperator ·) ≤ tokens.countP Token.isOperator) :
    evaluateChain supply context tokens = none := by
  have hdoubles : ∀ op, .operator op ∈ Token.resolveAll supply context tokens →
      op.onDoubles?.isSome := by
    intro op hop
    rcases List.mem_append.mp (harithmetic op (Token.operator_of_mem_resolveAll hop)) with h | h
    · exact Grammar.isSome_onDoubles?_of_mem_sum op h
    · exact Grammar.isSome_onDoubles?_of_mem_product op h
  have hsurplus : surplus (Token.resolveAll supply context tokens) ≤ 0 := by
    rw [surplus_resolveAll]
    omega
  rw [evaluateChain_eq_reduce, reduce]
  rcases Reduction.run_of_surplus hdoubles hsurplus with hsunk | hnil
  · rw [hsunk.getLast?]
    rfl
  · rw [hnil]
    rfl

/-- A list of tokens with operators at both ends and two of them in a row. -/
def danglingTokens : List Token :=
  [.operator .mul, .reference "a", .operator .sub, .operator .div,
    .literal (.num (.integer 2)), .operator .add]

theorem evaluateChain_of_missing_operands_dangling :
    (∀ op, .operator op ∈ danglingTokens →
      op ∈ Grammar.sumOperators ++ Grammar.productOperators) ∧
    danglingTokens.countP (! Token.isOperator ·) ≤ danglingTokens.countP Token.isOperator ∧
    evaluateChain (.constant ⟨"noon", "id"⟩) { extra := [("a", .num (.integer 6))] }
      danglingTokens = none := by
  have harithmetic : ∀ op, .operator op ∈ danglingTokens →
      op ∈ Grammar.sumOperators ++ Grammar.productOperators := by
    intro op hop
    cases op <;> revert hop <;> decide
  have hmissing : danglingTokens.countP (! Token.isOperator ·) ≤
      danglingTokens.countP Token.isOperator := by
    decide
  exact ⟨harithmetic, hmissing, evaluateChain_of_missing_operands _ _ harithmetic hmissing⟩

end FlowDocs
