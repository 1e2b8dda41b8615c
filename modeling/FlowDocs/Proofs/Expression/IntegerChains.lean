/-
  FlowDocs/Proofs/Expression/IntegerChains.lean
  =============================================
  **Chains of integers are exact.**

  Every step of a chain of integers leads from integers to doubles and back, and what comes back
  is an operand of the next step.  One step is exact when its operands and its exact result are
  at most `2 ^ 53 - 1` (`Operator.apply_integers`): the result is an integer again, never a double
  that happens to be integral.  So a chain is exact when nothing its exact value goes through is
  larger.
-/
import FlowDocs.Proofs.Expression.Products
import FlowDocs.Proofs.Numeric.ExactArithmetic

namespace FlowDocs

/-- The operators that lead from integers to integers. -/
def Grammar.integerOperators : List Operator := [.add, .sub, .mul, .rem]

/-- The magnitude is at most the largest one up to which all integers are doubles. -/
def Exact (n : Int) : Prop := n.natAbs ≤ Number.maxExact

instance (n : Int) : Decidable (Exact n) := inferInstanceAs (Decidable (n.natAbs ≤ Number.maxExact))

theorem Exact.lt {n : Int} (h : Exact n) : n.natAbs < 2 ^ 53 := Nat.lt_of_le_of_lt h (by decide)

/-- The integer as an operand. -/
def integerOperand (n : Int) : Option Json := some (.int n)

namespace Operator

/-- What an operator computes on integers.  The remainder has the sign of the dividend, and it
    is zero when the divisor is.  The other operators lead away from integers. -/
def onIntegers : Operator → Int → Int → Int
  | .add, a, b => a + b
  | .sub, a, b => a - b
  | .mul, a, b => a * b
  | .rem, a, b => if b = 0 then 0 else a.tmod b
  | _, _, _ => 0

example : onIntegers .rem (-7) 3 = -1 ∧ onIntegers .rem 7 (-3) = 1 ∧ onIntegers .rem 7 0 = 0 := by
  decide

/-- What an operator computes on doubles that hold integers is the double of the exact result. -/
theorem isInteger_onDoubles {op : Operator} (hop : op ∈ Grammar.integerOperators) {a b : Int}
    (ha : Exact a) (hb : Exact b) (hresult : Exact (op.onIntegers a b)) :
    ∃ f, op.onDoubles? = some f ∧
      Numeric.IsInteger (f (Float.ofInt a) (Float.ofInt b)).toModel.unpack (op.onIntegers a b) := by
  have hx := Numeric.isInteger_ofInt ha.lt
  have hy := Numeric.isInteger_ofInt hb.lt
  cases op with
  | add =>
    exact ⟨_, rfl, Numeric.isInteger_unpack_pack
      (Numeric.isInteger_add hx hy ha.lt hb.lt hresult.lt)⟩
  | sub =>
    exact ⟨_, rfl, Numeric.isInteger_unpack_pack
      (Numeric.isInteger_sub hx hy ha.lt hb.lt hresult.lt)⟩
  | mul =>
    exact ⟨_, rfl, Numeric.isInteger_unpack_pack
      (Numeric.isInteger_mul hx hy ha.lt hb.lt hresult.lt)⟩
  | rem => exact ⟨_, rfl, Numeric.isInteger_remainder hx hy ha.lt hb.lt⟩
  | eq | ne | gt | lt | ge | le | div => exact absurd hop (by decide)

/-- **One step is exact.** -/
theorem apply_integers {op : Operator} (hop : op ∈ Grammar.integerOperators) {a b : Int}
    (ha : Exact a) (hb : Exact b) (hresult : Exact (op.onIntegers a b)) :
    op.apply (integerOperand a) (integerOperand b) = integerOperand (op.onIntegers a b) := by
  obtain ⟨f, hf, hinteger⟩ := isInteger_onDoubles hop ha hb hresult
  rw [apply_of_onDoubles? hf]
  exact congrArg (Option.map Json.num) (Numeric.ofFloat?_of_isInteger hinteger hresult)

end Operator

/-! ### Folding -/

namespace Chain

theorem fold_mem_results {α : Type} (f : Operator → α → α → α) (chain : Chain α) :
    chain.fold f ∈ chain.results f := by
  obtain ⟨a, links⟩ := chain
  induction links generalizing a with
  | nil => exact List.mem_singleton_self a
  | cons link links ih =>
    rw [results, List.scanl_cons]
    exact List.mem_cons_of_mem a (ih (f link.1 a link.2))

theorem first_mem_results {α : Type} (f : Operator → α → α → α) (chain : Chain α) :
    chain.first ∈ chain.results f := by
  obtain ⟨a, links⟩ := chain
  cases links with
  | nil => exact List.mem_singleton_self a
  | cons link links =>
    rw [results, List.scanl_cons]
    exact List.mem_cons_self

/-- Folding is exact when all it goes through is. -/
theorem fold_integers {numbers : Chain Int}
    (hop : ∀ op ∈ numbers.operators, op ∈ Grammar.integerOperators)
    (hoperands : ∀ n ∈ numbers.operands, Exact n)
    (hresults : ∀ n ∈ numbers.results Operator.onIntegers, Exact n) :
    (numbers.map integerOperand).fold Operator.apply =
      integerOperand (numbers.fold Operator.onIntegers) := by
  obtain ⟨a, links⟩ := numbers
  induction links generalizing a with
  | nil => rfl
  | cons link links ih =>
    obtain ⟨op, b⟩ := link
    obtain ⟨ha, hb, hlinks⟩ :=
      And.imp_right List.forall_mem_cons.mp (List.forall_mem_cons.mp hoperands)
    obtain ⟨hfirst, hrest⟩ := List.forall_mem_cons.mp hop
    rw [results, List.scanl_cons, List.forall_mem_cons] at hresults
    -- the first step leads to the first operand of the chain that is left
    have hstep : Exact (op.onIntegers a b) :=
      hresults.2 _ (first_mem_results Operator.onIntegers ⟨op.onIntegers a b, links⟩)
    have happly := Operator.apply_integers hfirst ha hb hstep
    have hfold := ih (op.onIntegers a b) hrest (List.forall_mem_cons.mpr ⟨hstep, hlinks⟩) hresults.2
    rw [fold, map] at hfold ⊢
    rw [List.map_cons, List.foldl_cons, happly]
    exact hfold

/-! ### Products, then their sum -/

/-- Nothing in the chain or on the way to its value is larger than `2 ^ 53 - 1`. -/
def StaysExact (numbers : Chain Int) : Prop :=
  ∀ n ∈ numbers.operands ++ numbers.sumResults Operator.onIntegers, Exact n

instance (numbers : Chain Int) : Decidable numbers.StaysExact :=
  inferInstanceAs
    (Decidable (∀ n ∈ numbers.operands ++ numbers.sumResults Operator.onIntegers, Exact n))

/-- The products of a chain and its sum are folded exactly. -/
theorem sumValue_integers {numbers : Chain Int}
    (hop : ∀ op ∈ numbers.operators, op ∈ Grammar.integerOperators)
    (hexact : numbers.StaysExact) :
    (numbers.map integerOperand).sumValue Operator.apply =
      integerOperand (numbers.sumValue Operator.onIntegers) := by
  rw [StaysExact, sumResults, List.forall_mem_append, List.forall_mem_append,
    List.forall_mem_flatMap, ← flatMap_operands_products, List.forall_mem_flatMap] at hexact
  obtain ⟨hoperands, hresults, hsum⟩ := hexact
  have hproducts : ∀ product ∈ numbers.products.operands,
      (fold Operator.apply ∘ map integerOperand) product =
        (integerOperand ∘ fold Operator.onIntegers) product := by
    intro product hproduct
    refine fold_integers ?_ (hoperands product hproduct) (hresults product hproduct)
    exact fun op h => hop op (mem_operators_of_mem_productsFrom hproduct h).1
  rw [sumValue, products_map, map_map, map_congr hproducts, ← map_map, sumValue]
  refine fold_integers ?_ ?_ hsum
  · rw [operators_map]
    exact fun op h => hop op (mem_operators_productsFrom h).1
  · rw [operands_map, List.forall_mem_map]
    exact fun product hproduct => hresults product hproduct _ (fold_mem_results _ product)

end Chain

/-- **Chains of integers are exact.**  A chain of integers under `+`, `-`, `*` and `%` has its
    exact value, and it has it as an integer, when no operand and no result on the way to the
    exact value is larger than `2 ^ 53 - 1`. -/
theorem evaluateChain_integers (supply : Supply) (context : Context) (chain : Chain Operand)
    (numbers : Chain Int)
    (hresolved : chain.resolved supply context = numbers.map integerOperand)
    (hop : ∀ op ∈ numbers.operators, op ∈ Grammar.integerOperators)
    (hexact : numbers.StaysExact) :
    evaluateChain supply context chain.tokens =
      some (.int (numbers.sumValue Operator.onIntegers)) := by
  have hoperators : ∀ op ∈ chain.operators,
      op ∈ Grammar.sumOperators ++ Grammar.productOperators := by
    have harithmetic : ∀ op ∈ Grammar.integerOperators,
        op ∈ Grammar.sumOperators ++ Grammar.productOperators := by decide
    rw [← Chain.operators_resolved supply context, hresolved, Chain.operators_map]
    exact fun op h => harithmetic op (hop op h)
  rw [evaluateChain_eq_sumValue supply context chain hoperators, hresolved]
  exact Chain.sumValue_integers hop hexact

/-- The largest exact integer, less the remainder of a product, and a zero with a sign. -/
def boundaryNumbers : Chain Int :=
  ⟨9007199254740991,
    [(.sub, 5), (.mul, 3), (.rem, -4), (.add, 0), (.mul, -2), (.add, 7), (.rem, 0)]⟩

theorem evaluateChain_integers_boundary :
    let chain : Chain Operand := boundaryNumbers.map fun n => .literal (.int n)
    chain.resolved (.constant ⟨"noon", "id"⟩) {} = boundaryNumbers.map integerOperand ∧
      (∀ op ∈ boundaryNumbers.operators, op ∈ Grammar.integerOperators) ∧
      boundaryNumbers.StaysExact ∧
      evaluateChain (.constant ⟨"noon", "id"⟩) {} chain.tokens =
        some (.int 9007199254740988) := by
  intro chain
  have hresolved : chain.resolved (.constant ⟨"noon", "id"⟩) {} =
      boundaryNumbers.map integerOperand := rfl
  have hop : ∀ op ∈ boundaryNumbers.operators, op ∈ Grammar.integerOperators := by decide
  have hexact : boundaryNumbers.StaysExact := by decide
  exact ⟨hresolved, hop, hexact,
    evaluateChain_integers _ _ chain boundaryNumbers hresolved hop hexact⟩

end FlowDocs
