/-
  FlowDocs/Proofs/Expression/Precedence.lean
  ==========================================
  **Two stacks compute the grammar.**

  `Reduction` reads a chain from left to right and decides with two stacks when an
  operator is applied.  The invariant that ties it to the grammar is `Settles`: a
  phrase of some level, read on top of any stacks whose pending operators bind less
  tightly, amounts to pushing its value once the stacks are unwound to that level.
  One lemma per way of forming a phrase keeps the invariant; the levels follow by
  induction on the derivation, and the final unwinding finds a single value.
-/
import FlowDocs.Proofs.Expression.Grammar

namespace FlowDocs
namespace Reduction

/-! ### Unwinding -/

/-- The topmost pending operator binds less tightly than `level`. -/
def Waits (level : Nat) (pending : List Operator) : Prop :=
  ∀ op ∈ pending.head?, op.precedence < level

theorem Waits.mono {low high : Nat} {pending : List Operator} (h : Waits low pending)
    (hle : low ≤ high) : Waits high pending :=
  fun op hop => Nat.lt_of_lt_of_le (h op hop) hle

theorem unwind_of_waits {level : Nat} {pending : List Operator} (h : Waits level pending)
    (values : Values) : unwind level values pending = (values, pending) := by
  cases pending with
  | nil => rfl
  | cons op pending =>
    have hop : op.precedence < level := h op rfl
    rw [unwind, if_pos hop]

theorem unwind_cons_of_le {level : Nat} {op : Operator} (h : level ≤ op.precedence)
    (values : Values) (pending : List Operator) :
    unwind level values (op :: pending) = unwind level (collapse op values) pending := by
  rw [unwind, if_neg (Nat.not_lt.mpr h)]

/-- Unwinding to a tighter level first changes nothing. -/
theorem unwind_unwind {low high : Nat} (hle : low ≤ high) (values : Values)
    (pending : List Operator) :
    unwind low (unwind high values pending).1 (unwind high values pending).2
      = unwind low values pending := by
  induction pending generalizing values with
  | nil => rfl
  | cons op pending ih =>
    by_cases hop : op.precedence < high
    · rw [unwind, if_pos hop]
    · have hhigh : high ≤ op.precedence := Nat.not_lt.mp hop
      rw [unwind_cons_of_le hhigh, unwind_cons_of_le (Nat.le_trans hle hhigh)]
      exact ih _

/-! ### The invariant of the stacks -/

/-- Reading the items and unwinding to `level` leaves one value more than before and
    the same pending operators. -/
def Settles (level : Nat) (items : List Item) (value : Option Json) : Prop :=
  ∀ (values : Values) (pending : List Operator), Waits level pending →
    unwind level (items.foldl push (values, pending)).1 (items.foldl push (values, pending)).2
      = (value :: values, pending)

theorem Settles.operand (level : Nat) (x : Option Json) : Settles level [.operand x] x :=
  fun values _ h => unwind_of_waits h (x :: values)

theorem Settles.mono {low high : Nat} {items : List Item} {a : Option Json}
    (h : Settles high items a) (hle : low ≤ high) : Settles low items a := by
  intro values pending hw
  rw [← unwind_unwind hle, h values pending (hw.mono hle)]
  exact unwind_of_waits hw _

/-- An operator of a level joins a phrase of that level with a tighter one. -/
theorem Settles.join {level : Nat} {items more : List Item} {a b : Option Json} {op : Operator}
    (hop : op.precedence = level) (h : Settles level items a) (h' : Settles (level + 1) more b) :
    Settles level (items ++ .operator op :: more) (op.apply a b) := by
  intro values pending hw
  -- reading the operator applies what is pending in `items`, and the operator waits
  have hpush : push (items.foldl push (values, pending)) (.operator op)
      = (a :: values, op :: pending) := by
    simp only [push, hop, h values pending hw]
  -- `more` is read above the waiting operator and leaves it in place
  have hwaits : Waits (level + 1) (op :: pending) := by
    intro top htop
    simp only [List.head?_cons, Option.mem_def, Option.some.injEq] at htop
    subst htop; omega
  have hmore := h' (a :: values) (op :: pending) hwaits
  rw [List.foldl_append, List.foldl_cons, hpush, ← unwind_unwind (Nat.le_succ level), hmore,
    unwind_cons_of_le (Nat.le_of_eq hop.symm)]
  exact unwind_of_waits hw _

end Reduction

/-! ### The levels of the grammar -/

namespace Grammar

open Reduction

theorem precedence_of_mem_product : ∀ op ∈ productOperators, op.precedence = 3 := by decide

theorem precedence_of_mem_sum : ∀ op ∈ sumOperators, op.precedence = 2 := by decide

theorem precedence_of_mem_comparison : ∀ op ∈ comparisonOperators, op.precedence = 1 := by decide

theorem Product.settles {items : List Item} {a : Option Json} (h : Product items a) :
    Settles 3 items a := by
  induction h with
  | operand x => exact .operand 3 x
  | join op x _ hop ih => exact .join (precedence_of_mem_product op hop) ih (.operand 4 x)

theorem Sum.settles {items : List Item} {a : Option Json} (h : Sum items a) :
    Settles 2 items a := by
  induction h with
  | product hp => exact hp.settles.mono (by decide)
  | join op _ hop hp ih => exact .join (precedence_of_mem_sum op hop) ih hp.settles

theorem Comparison.settles {items : List Item} {a : Option Json} (h : Comparison items a) :
    Settles 1 items a := by
  induction h with
  | sum hs => exact hs.settles.mono (by decide)
  | join op _ hop hs ih => exact .join (precedence_of_mem_comparison op hop) ih hs.settles

/-- **The reduction computes the value of a comparison.** -/
theorem Comparison.reduce_eq {items : List Item} {a : Option Json} (h : Comparison items a) :
    reduce items = a := by
  have hrun : Reduction.run items = [a] := by
    have hs := h.settles.mono (Nat.zero_le 1) [] [] (by simp [Waits])
    simp only [Reduction.run, hs]
  simp [reduce, hrun]

theorem comparison_items_iff (chain : Chain (Option Json)) (a : Option Json) :
    Comparison chain.items a ↔ reduce chain.items = a := by
  constructor
  · exact Comparison.reduce_eq
  · intro h
    obtain ⟨b, hb⟩ := comparison_items chain
    rw [← h, hb.reduce_eq]
    exact hb

end Grammar

/-! ### Chains of tokens -/

/-- The answer for a lone operand is the answer of the reduction. -/
theorem evaluateChain_eq_reduce (supply : Supply) (context : Context) (tokens : List Token) :
    evaluateChain supply context tokens = reduce (Token.resolveAll supply context tokens) := by
  unfold evaluateChain
  split
  · rename_i value heq
    rw [heq]; rfl
  · rfl

/-- **Precedence.**  The value of a chain is the value the grammar gives to its
    operands and operators, and no other: products before sums, sums before
    comparisons, each from left to right. -/
theorem evaluateChain_eq_iff_comparison (supply : Supply) (context : Context)
    (chain : Chain Operand) (value : Option Json) :
    evaluateChain supply context chain.tokens = value ↔
      Grammar.Comparison (chain.resolved supply context).items value := by
  rw [evaluateChain_eq_reduce, Chain.resolveAll_tokens]
  exact (Grammar.comparison_items_iff _ value).symm

end FlowDocs
