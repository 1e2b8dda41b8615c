/-
  FlowDocs/Proofs/Expression/Products.lean
  ========================================
  **A chain without comparisons is a sum of products.**

  Such a chain is cut at its sum operators into chains of products (`Chain.products`).  Its value
  is what is left when every product is folded from the left, and then the sum of the products is
  (`Chain.sumValue`).  The cutting goes through the links from the first to the last, the grammar
  grows at its end; they meet in the list of items, which the cutting leaves as it was.
-/
import FlowDocs.Proofs.Expression.ResultKinds

namespace FlowDocs

namespace Chain

variable {α β γ : Type}

def map (g : α → β) (chain : Chain α) : Chain β :=
  ⟨g chain.first, chain.links.map fun link => (link.1, g link.2)⟩

/-- The chain with one more operand in front. -/
def cons (x : α) (op : Operator) (chain : Chain α) : Chain α :=
  ⟨x, (op, chain.first) :: chain.links⟩

/-! ### Folding -/

/-- The value of a chain when all its operators are applied from the left. -/
def fold (f : Operator → α → α → α) (chain : Chain α) : α :=
  chain.links.foldl (fun a link => f link.1 a link.2) chain.first

/-- What the folding goes through, from the first operand to the value. -/
def results (f : Operator → α → α → α) (chain : Chain α) : List α :=
  chain.links.scanl (fun a link => f link.1 a link.2) chain.first

theorem fold_snoc (f : Operator → α → α → α) (chain : Chain α) (op : Operator) (x : α) :
    (chain.snoc op x).fold f = f op (chain.fold f) x := by
  rw [fold, snoc, List.foldl_append]
  rfl

theorem operators_snoc (chain : Chain α) (op : Operator) (x : α) :
    (chain.snoc op x).operators = chain.operators ++ [op] := by
  rw [operators, snoc, List.map_append]
  rfl

theorem operands_snoc (chain : Chain α) (op : Operator) (x : α) :
    (chain.snoc op x).operands = chain.operands ++ [x] := by
  rw [operands, snoc, List.map_append]
  rfl

theorem map_snoc (g : α → β) (chain : Chain α) (op : Operator) (x : α) :
    (chain.snoc op x).map g = (chain.map g).snoc op (g x) := by
  rw [map, snoc, List.map_append]
  rfl

theorem map_map (g : α → β) (h : β → γ) (chain : Chain α) :
    (chain.map g).map h = chain.map (h ∘ g) := by
  rw [map, map, List.map_map]
  rfl

theorem map_congr {g h : α → β} {chain : Chain α} (heq : ∀ x ∈ chain.operands, g x = h x) :
    chain.map g = chain.map h := by
  obtain ⟨hfirst, hlinks⟩ := List.forall_mem_cons.mp heq
  rw [map, map, hfirst]
  congr 1
  refine List.map_congr_left fun link hlink => ?_
  rw [hlinks link.2 (List.mem_map_of_mem hlink)]

theorem operators_map (g : α → β) (chain : Chain α) : (chain.map g).operators = chain.operators :=
  List.map_map

theorem operands_map (g : α → β) (chain : Chain α) :
    (chain.map g).operands = chain.operands.map g := by
  rw [operands, operands, map, List.map_cons, List.map_map, List.map_map]
  rfl

/-! ### Cutting -/

/-- The products of the chain that starts with `x` and goes on with the links: a sum operator
    ends a product, any other operator makes it longer. -/
def productsFrom (x : α) : List (Operator × α) → Chain (Chain α)
  | [] => ⟨⟨x, []⟩, []⟩
  | (op, y) :: links =>
    if op ∈ Grammar.sumOperators then (productsFrom y links).cons ⟨x, []⟩ op
    else ⟨(productsFrom y links).first.cons x op, (productsFrom y links).links⟩

/-- The chain, cut into products at its sum operators. -/
def products (chain : Chain α) : Chain (Chain α) := productsFrom chain.first chain.links

/-- The value of a chain without comparisons: its products first, then their sum. -/
def sumValue (f : Operator → α → α → α) (chain : Chain α) : α :=
  (chain.products.map (fold f)).fold f

/-- Everything the value goes through: the results in the products, then those of the sum. -/
def sumResults (f : Operator → α → α → α) (chain : Chain α) : List α :=
  chain.products.operands.flatMap (results f) ++ (chain.products.map (fold f)).results f

theorem productsFrom_map (g : α → β) (x : α) (links : List (Operator × α)) :
    productsFrom (g x) (links.map fun link => (link.1, g link.2)) =
      (productsFrom x links).map (map g) := by
  induction links generalizing x with
  | nil => rfl
  | cons link links ih =>
    obtain ⟨op, y⟩ := link
    rw [List.map_cons, productsFrom, productsFrom, ih]
    split
    · rfl
    · rfl

/-- Cutting does not look at the operands. -/
theorem products_map (g : α → β) (chain : Chain α) :
    (chain.map g).products = chain.products.map (map g) :=
  productsFrom_map g chain.first chain.links

/-- The operands of the products are those of the chain. -/
theorem flatMap_operands_products (chain : Chain α) :
    chain.products.operands.flatMap operands = chain.operands := by
  obtain ⟨x, links⟩ := chain
  change (productsFrom x links).operands.flatMap operands = x :: links.map Prod.snd
  induction links generalizing x with
  | nil => rfl
  | cons link links ih =>
    obtain ⟨op, y⟩ := link
    rw [List.map_cons, ← ih y, productsFrom]
    split
    · rfl
    · rfl

theorem mem_operators_productsFrom {op : Operator} {x : α} {links : List (Operator × α)}
    (h : op ∈ (productsFrom x links).operators) :
    op ∈ links.map Prod.fst ∧ op ∈ Grammar.sumOperators := by
  induction links generalizing x with
  | nil => cases h
  | cons link links ih =>
    obtain ⟨op', y⟩ := link
    rw [productsFrom] at h
    split at h
    · rename_i hsum
      cases h with
      | head => exact ⟨List.mem_cons_self, hsum⟩
      | tail _ h => exact ⟨List.mem_cons_of_mem op' (ih h).1, (ih h).2⟩
    · exact ⟨List.mem_cons_of_mem op' (ih h).1, (ih h).2⟩

theorem mem_operators_of_mem_productsFrom {op : Operator} {x : α} {links : List (Operator × α)}
    {product : Chain α} (hproduct : product ∈ (productsFrom x links).operands)
    (h : op ∈ product.operators) :
    op ∈ links.map Prod.fst ∧ op ∉ Grammar.sumOperators := by
  induction links generalizing x product with
  | nil =>
    cases List.mem_singleton.mp hproduct
    cases h
  | cons link links ih =>
    obtain ⟨op', y⟩ := link
    have hrest : ∀ {product : Chain α}, product ∈ (productsFrom y links).operands →
        op ∈ product.operators → op ∈ op' :: links.map Prod.fst ∧ op ∉ Grammar.sumOperators :=
      fun hproduct h => ⟨List.mem_cons_of_mem op' (ih hproduct h).1, (ih hproduct h).2⟩
    rw [productsFrom] at hproduct
    split at hproduct
    · cases hproduct with
      | head => cases h
      | tail _ hproduct => exact hrest hproduct h
    · rename_i hsum
      cases hproduct with
      | head =>
        cases h with
        | head => exact ⟨List.mem_cons_self, hsum⟩
        | tail _ h => exact hrest List.mem_cons_self h
      | tail _ hproduct => exact hrest (List.mem_cons_of_mem _ hproduct) h

/-! ### The grammar of the pieces -/

/-- The items of a chain of chains, one piece after the other. -/
def joinedItems (chains : Chain (Chain (Option Json))) : List Item :=
  chains.first.items ++ chains.links.flatMap fun link => .operator link.1 :: link.2.items

theorem joinedItems_snoc (chains : Chain (Chain (Option Json))) (op : Operator)
    (chain : Chain (Option Json)) :
    (chains.snoc op chain).joinedItems = chains.joinedItems ++ .operator op :: chain.items := by
  simp [joinedItems, snoc]

/-- **Cutting leaves the items as they were.** -/
theorem joinedItems_products (chain : Chain (Option Json)) :
    chain.products.joinedItems = chain.items := by
  obtain ⟨x, links⟩ := chain
  change (productsFrom x links).joinedItems = _
  induction links generalizing x with
  | nil => rfl
  | cons link links ih =>
    obtain ⟨op, y⟩ := link
    have hitems : (⟨x, (op, y) :: links⟩ : Chain (Option Json)).items =
        .operand x :: .operator op :: (⟨y, links⟩ : Chain (Option Json)).items := rfl
    rw [hitems, ← ih y, productsFrom]
    split
    · rfl
    · rfl

theorem product_items {chain : Chain (Option Json)}
    (h : ∀ op ∈ chain.operators, op ∈ Grammar.productOperators) :
    Grammar.Product chain.items (chain.fold Operator.apply) := by
  induction chain using Chain.snoc_induction with
  | operand x => exact .operand x
  | link chain op x ih =>
    rw [operators_snoc, List.forall_mem_append, List.forall_mem_singleton] at h
    rw [items_snoc, fold_snoc]
    exact .join op x (ih h.1) h.2

theorem sum_joinedItems {chains : Chain (Chain (Option Json))}
    (hsum : ∀ op ∈ chains.operators, op ∈ Grammar.sumOperators)
    (hproduct : ∀ chain ∈ chains.operands, ∀ op ∈ chain.operators,
      op ∈ Grammar.productOperators) :
    Grammar.Sum chains.joinedItems ((chains.map (fold Operator.apply)).fold Operator.apply) := by
  induction chains using Chain.snoc_induction with
  | operand chain =>
    have hitems : joinedItems ⟨chain, []⟩ = chain.items := List.append_nil _
    rw [hitems]
    exact .product (product_items (hproduct chain List.mem_cons_self))
  | link chains op chain ih =>
    rw [operators_snoc, List.forall_mem_append, List.forall_mem_singleton] at hsum
    rw [operands_snoc, List.forall_mem_append, List.forall_mem_singleton] at hproduct
    rw [joinedItems_snoc, map_snoc, fold_snoc]
    exact .join op (ih hsum.1 hproduct.1) hsum.2 (product_items hproduct.2)

/-- **The grammar gives a chain without comparisons the value of its products.** -/
theorem sum_items {chain : Chain (Option Json)}
    (h : ∀ op ∈ chain.operators, op ∈ Grammar.sumOperators ++ Grammar.productOperators) :
    Grammar.Sum chain.items (chain.sumValue Operator.apply) := by
  rw [← joinedItems_products]
  refine sum_joinedItems (fun op hop => (mem_operators_productsFrom hop).2) ?_
  intro product hproduct op hop
  obtain ⟨hmem, hnot⟩ := mem_operators_of_mem_productsFrom hproduct hop
  exact (List.mem_append.mp (h op hmem)).resolve_left hnot

end Chain

/-- **A chain without comparisons is evaluated as a sum of products.** -/
theorem evaluateChain_eq_sumValue (supply : Supply) (context : Context) (chain : Chain Operand)
    (h : ∀ op ∈ chain.operators, op ∈ Grammar.sumOperators ++ Grammar.productOperators) :
    evaluateChain supply context chain.tokens =
      (chain.resolved supply context).sumValue Operator.apply := by
  rw [← Chain.operators_resolved supply context] at h
  exact (evaluateChain_eq_iff_comparison supply context chain _).mpr (.sum (Chain.sum_items h))

end FlowDocs
