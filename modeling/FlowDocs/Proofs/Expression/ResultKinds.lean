/-
  FlowDocs/Proofs/Expression/ResultKinds.lean
  ===========================================
  **What kind of value a chain has.**

  The operator that is written last need not be applied last.  But comparisons bind least, so
  the last operator applied to a chain that has one is a comparison, and a comparison answers
  with a boolean whatever it is given.  A chain without one is a sum, and arithmetic is strict:
  it gives a number, and only to two numbers (`isNumber_of_apply`).  So one operand that is
  missing or no number, anywhere in a sum, leaves the whole sum undefined.
-/
import FlowDocs.Proofs.Expression.Arithmetic
import Mathlib

namespace FlowDocs

/-- The operand is there and it is a number. -/
def IsNumber (operand : Option Json) : Prop := ∃ n, operand = some (.num n)

theorem not_isNumber_none : ¬ IsNumber none := by
  rintro ⟨n, ⟨⟩⟩

/-! ### Operands and operators of a chain -/

namespace Chain

variable {α : Type}

def operands (chain : Chain α) : List α := chain.first :: chain.links.map Prod.snd

def operators (chain : Chain α) : List Operator := chain.links.map Prod.fst

theorem operator_mem_items {op : Operator} {chain : Chain (Option Json)} :
    .operator op ∈ chain.items ↔ op ∈ chain.operators := by
  simp [items, operators, List.mem_flatMap, eq_comm]

theorem operand_mem_items {x : Option Json} {chain : Chain (Option Json)} :
    .operand x ∈ chain.items ↔ x ∈ chain.operands := by
  simp [items, operands, List.mem_flatMap, eq_comm]

/-- Resolving keeps the operators. -/
theorem operators_resolved (supply : Supply) (context : Context) (chain : Chain Operand) :
    (chain.resolved supply context).operators = chain.operators := by
  have hlinks : ∀ (links : List (Operator × Operand)) (supply : Supply),
      (resolvedLinks supply context links).map Prod.fst = links.map Prod.fst := by
    intro links
    induction links with
    | nil => exact fun _ => rfl
    | cons link links ih => exact fun supply => congrArg (link.1 :: ·) (ih supply.right.right)
  exact hlinks chain.links supply.right

end Chain

/-! ### One operator -/

namespace Operator

theorem apply_comparison {op : Operator} (hop : op ∈ Grammar.comparisonOperators)
    (left right : Option Json) : ∃ b, op.apply left right = some (.bool b) := by
  cases op with
  | eq | ne | gt | lt | ge | le => exact ⟨_, rfl⟩
  | add | sub | mul | div | rem => exact absurd hop (by decide)

/-- **Arithmetic is strict.**  It gives a number or nothing, and nothing unless both its
    operands are numbers. -/
theorem isNumber_of_apply {op : Operator} (hop : op.onDoubles?.isSome) {left right : Option Json}
    {value : Json} (h : op.apply left right = some value) :
    IsNumber left ∧ IsNumber right ∧ IsNumber (some value) := by
  obtain ⟨f, hf⟩ := Option.isSome_iff_exists.mp hop
  rw [apply_of_onDoubles? hf] at h
  unfold arithmetic at h
  split at h
  · rename_i a b
    obtain ⟨n, -, rfl⟩ := Option.map_eq_some_iff.mp h
    exact ⟨⟨a, rfl⟩, ⟨b, rfl⟩, ⟨n, rfl⟩⟩
  · cases h

end Operator

/-! ### Products and sums -/

namespace Grammar

variable {items : List Item} {a : Option Json}

/-- A product whose value is a number has numbers for operands. -/
theorem Product.isNumber_operand (h : Product items a) (ha : IsNumber a) {x : Option Json}
    (hx : .operand x ∈ items) : IsNumber x := by
  induction h with
  | operand y =>
    cases List.mem_singleton.mp hx
    exact ha
  | @join items b op y _ hop ih =>
    obtain ⟨n, hn⟩ := ha
    obtain ⟨hb, hy, -⟩ := Operator.isNumber_of_apply (isSome_onDoubles?_of_mem_product op hop) hn
    rcases List.mem_append.mp hx with hx | hx
    · exact ih hb hx
    · cases hx with
      | tail _ hx =>
        cases List.mem_singleton.mp hx
        exact hy

/-- A sum whose value is a number has numbers for operands. -/
theorem Sum.isNumber_operand (h : Sum items a) (ha : IsNumber a) {x : Option Json}
    (hx : .operand x ∈ items) : IsNumber x := by
  induction h with
  | product hp => exact hp.isNumber_operand ha hx
  | @join items more b c op _ hop hp ih =>
    obtain ⟨n, hn⟩ := ha
    obtain ⟨hb, hc, -⟩ := Operator.isNumber_of_apply (isSome_onDoubles?_of_mem_sum op hop) hn
    rcases List.mem_append.mp hx with hx | hx
    · exact ih hb hx
    · cases hx with
      | tail _ hx => exact hp.isNumber_operand hc hx

/-- An operator in a sum is no comparison. -/
theorem Product.operator_mem (h : Product items a) {op : Operator} (hop : .operator op ∈ items) :
    op ∈ sumOperators ++ productOperators := by
  induction h with
  | operand y => cases List.mem_singleton.mp hop
  | join op' y _ hop' ih =>
    rcases List.mem_append.mp hop with hop | hop
    · exact ih hop
    · cases hop with
      | head => exact List.mem_append_right _ hop'
      | tail _ hop => cases List.mem_singleton.mp hop

theorem Sum.operator_mem (h : Sum items a) {op : Operator} (hop : .operator op ∈ items) :
    op ∈ sumOperators ++ productOperators := by
  induction h with
  | product hp => exact hp.operator_mem hop
  | join op' _ hop' hp ih =>
    rcases List.mem_append.mp hop with hop | hop
    · exact ih hop
    · cases hop with
      | head => exact List.mem_append_left _ hop'
      | tail _ hop => exact hp.operator_mem hop

/-- A product with an operator in it has the value of that operator's kind. -/
theorem Product.isNumber_of_operator (h : Product items a) {op : Operator}
    (hop : .operator op ∈ items) {value : Json} (ha : a = some value) : IsNumber a := by
  cases h with
  | operand y => cases List.mem_singleton.mp hop
  | join op' y _ hop' =>
    rw [ha]
    exact (Operator.isNumber_of_apply (isSome_onDoubles?_of_mem_product op' hop') ha).2.2

theorem Sum.isNumber_of_operator (h : Sum items a) {op : Operator}
    (hop : .operator op ∈ items) {value : Json} (ha : a = some value) : IsNumber a := by
  cases h with
  | product hp => exact hp.isNumber_of_operator hop ha
  | join op' _ hop' _ =>
    rw [ha]
    exact (Operator.isNumber_of_apply (isSome_onDoubles?_of_mem_sum op' hop') ha).2.2

/-! ### Comparisons -/

theorem not_arithmetic_of_mem_comparison :
    ∀ op ∈ comparisonOperators, op ∉ sumOperators ++ productOperators := by
  decide

/-- The last operator applied in a phrase with a comparison is a comparison. -/
theorem Comparison.eq_bool (h : Comparison items a) {op : Operator} (hop : .operator op ∈ items)
    (hcomparison : op ∈ comparisonOperators) : ∃ b, a = some (.bool b) := by
  cases h with
  | sum hs =>
    exact absurd (hs.operator_mem hop) (not_arithmetic_of_mem_comparison op hcomparison)
  | join op' _ hop' _ => exact Operator.apply_comparison hop' _ _

/-- A phrase without a comparison is a sum. -/
theorem Comparison.toSum (h : Comparison items a)
    (harithmetic : ∀ op, .operator op ∈ items → op ∈ sumOperators ++ productOperators) :
    Sum items a := by
  cases h with
  | sum hs => exact hs
  | join op _ hop _ =>
    have hmem := harithmetic op (List.mem_append_right _ List.mem_cons_self)
    exact absurd hmem (not_arithmetic_of_mem_comparison op hop)

end Grammar

/-! ### Chains -/

/-- **The kind of a chain's value.**  Let a chain have an operator.  If one of its operators is
    a comparison, its value is a boolean.  If all of them are arithmetic, its value is a number
    or undefined, and undefined as soon as one operand is missing or no number. -/
theorem evaluateChain_kind (supply : Supply) (context : Context) (chain : Chain Operand)
    (hoperators : chain.operators ≠ []) :
    ((∃ op ∈ chain.operators, op ∈ Grammar.comparisonOperators) →
      ∃ b, evaluateChain supply context chain.tokens = some (.bool b)) ∧
    ((∀ op ∈ chain.operators, op ∈ Grammar.sumOperators ++ Grammar.productOperators) →
      (evaluateChain supply context chain.tokens = none ∨
        IsNumber (evaluateChain supply context chain.tokens)) ∧
      ((∃ x ∈ (chain.resolved supply context).operands, ¬ IsNumber x) →
        evaluateChain supply context chain.tokens = none)) := by
  have hvalue := (evaluateChain_eq_iff_comparison supply context chain _).mp rfl
  have hmem : ∀ op, .operator op ∈ (chain.resolved supply context).items ↔
      op ∈ chain.operators := by
    intro op
    rw [Chain.operator_mem_items, Chain.operators_resolved]
  constructor
  · rintro ⟨op, hop, hcomparison⟩
    exact hvalue.eq_bool ((hmem op).mpr hop) hcomparison
  · intro harithmetic
    have hsum := hvalue.toSum fun op hop => harithmetic op ((hmem op).mp hop)
    obtain ⟨op, hop⟩ := List.exists_mem_of_ne_nil _ hoperators
    cases heq : evaluateChain supply context chain.tokens with
    | none => exact ⟨Or.inl rfl, fun _ => rfl⟩
    | some value =>
      rw [heq] at hsum
      have hnumber := hsum.isNumber_of_operator ((hmem op).mpr hop) rfl
      refine ⟨Or.inr hnumber, ?_⟩
      rintro ⟨x, hx, hnot⟩
      exact absurd (hsum.isNumber_operand hnumber (Chain.operand_mem_items.mpr hx)) hnot

/-- A sum that has no value on the left of a comparison. -/
def unevenChain : Chain Operand :=
  ⟨.literal (.str "a"),
    [(.add, .literal (.int 1)), (.lt, .literal (.int 2)), (.mul, .literal (.int 3))]⟩

/-- Arithmetic with a reference to nothing in the middle. -/
def gapChain : Chain Operand :=
  ⟨.literal (.int 8), [(.sub, .reference "missing"), (.rem, .literal (.int 3))]⟩

theorem evaluateChain_kind_uneven :
    (unevenChain.operators ≠ [] ∧
      (∃ op ∈ unevenChain.operators, op ∈ Grammar.comparisonOperators) ∧
      ∃ b, evaluateChain (.constant ⟨"noon", "id"⟩) {} unevenChain.tokens = some (.bool b)) ∧
    gapChain.operators ≠ [] ∧
      (∀ op ∈ gapChain.operators, op ∈ Grammar.sumOperators ++ Grammar.productOperators) ∧
      (∃ x ∈ (gapChain.resolved (.constant ⟨"noon", "id"⟩) {}).operands, ¬ IsNumber x) ∧
      evaluateChain (.constant ⟨"noon", "id"⟩) {} gapChain.tokens = none := by
  have huneven : unevenChain.operators ≠ [] := by decide
  have hcomparison : ∃ op ∈ unevenChain.operators, op ∈ Grammar.comparisonOperators := by decide
  have hgap : gapChain.operators ≠ [] := by decide
  have harithmetic : ∀ op ∈ gapChain.operators,
      op ∈ Grammar.sumOperators ++ Grammar.productOperators := by
    decide
  have hmissing : none ∈ (gapChain.resolved (.constant ⟨"noon", "id"⟩) {}).operands := by
    decide +kernel
  have hoperand : ∃ x ∈ (gapChain.resolved (.constant ⟨"noon", "id"⟩) {}).operands,
      ¬ IsNumber x :=
    ⟨none, hmissing, not_isNumber_none⟩
  exact ⟨⟨huneven, hcomparison, (evaluateChain_kind _ _ _ huneven).1 hcomparison⟩,
    hgap, harithmetic, hoperand, ((evaluateChain_kind _ _ _ hgap).2 harithmetic).2 hoperand⟩

end FlowDocs
