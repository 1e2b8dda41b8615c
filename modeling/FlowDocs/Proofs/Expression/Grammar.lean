/-
  FlowDocs/Proofs/Expression/Grammar.lean
  =======================================
  **The grammar of chains.**

  A chain is an operand and any number of operators, each with an operand after
  it.  Its value follows a grammar of three levels, every level folded from the
  left:

      comparison := sum (('==' | '!=' | '>' | '<' | '>=' | '<=') sum)*
      sum        := product (('+' | '-') product)*
      product    := operand (('*' | '/' | '%') operand)*

  The rules below are this grammar with the value beside the text.  They name the
  operators of each level one by one and know neither stacks nor precedences, so
  that the reduction can be measured against them.  Every chain has a value under
  the grammar (`comparison_items`); that it has only one is a consequence of what
  `Precedence.lean` proves.
-/
import FlowDocs.Expression.Evaluation
import Mathlib

namespace FlowDocs

/-! ### Chains -/

/-- An operand as it is written. -/
inductive Operand where
  | literal (value : Json)
  | reference (path : String)
deriving DecidableEq, Repr

namespace Operand

def token : Operand → Token
  | .literal value => .literal value
  | .reference path => .reference path

/-- What an operand stands for in a context. -/
def value (answers : Answers) (context : Context) : Operand → Option Json
  | .literal value => some value
  | .reference path => Lookup.reference answers context path

theorem resolve_token (answers : Answers) (context : Context) (operand : Operand) :
    operand.token.resolve answers context = .operand (operand.value answers context) := by
  cases operand <;> rfl

end Operand

/-- A well-formed chain: an operand, then operators with an operand after each. -/
structure Chain (α : Type) where
  first : α
  links : List (Operator × α)
deriving DecidableEq, Repr

namespace Chain

def tokens (chain : Chain Operand) : List Token :=
  chain.first.token :: chain.links.flatMap fun link => [.operator link.1, link.2.token]

/-- The items of a chain whose references have been resolved. -/
def items (chain : Chain (Option Json)) : List Item :=
  .operand chain.first :: chain.links.flatMap fun link => [.operator link.1, .operand link.2]

/-- The links with their operands resolved.  Operators take a place in the supply as
    operands do. -/
def resolvedLinks (supply : Supply) (context : Context) :
    List (Operator × Operand) → List (Operator × Option Json)
  | [] => []
  | (op, x) :: rest =>
    (op, x.value supply.right.left.here context) ::
      resolvedLinks supply.right.right context rest

/-- The chain with its operands resolved one by one, each at its own place. -/
def resolved (supply : Supply) (context : Context) (chain : Chain Operand) :
    Chain (Option Json) :=
  ⟨chain.first.value supply.left.here context,
    resolvedLinks supply.right context chain.links⟩

theorem resolveAll_links (supply : Supply) (context : Context)
    (links : List (Operator × Operand)) :
    Token.resolveAll supply context
        (links.flatMap fun link => [Token.operator link.1, link.2.token])
      = (resolvedLinks supply context links).flatMap
          fun link => [Item.operator link.1, Item.operand link.2] := by
  induction links generalizing supply with
  | nil => rfl
  | cons link links ih =>
    simp only [List.flatMap_cons, List.cons_append, List.nil_append, Token.resolveAll, ih,
      resolvedLinks, Operand.resolve_token]
    rfl

/-- Resolving the tokens of a chain resolves its operands and keeps its operators. -/
theorem resolveAll_tokens (supply : Supply) (context : Context) (chain : Chain Operand) :
    Token.resolveAll supply context chain.tokens = (chain.resolved supply context).items := by
  rw [tokens, Token.resolveAll, resolveAll_links, Operand.resolve_token]
  rfl

/-- One more link at the end. -/
def snoc {α : Type} (chain : Chain α) (op : Operator) (x : α) : Chain α :=
  ⟨chain.first, chain.links ++ [(op, x)]⟩

theorem items_snoc (chain : Chain (Option Json)) (op : Operator) (x : Option Json) :
    (chain.snoc op x).items = chain.items ++ [.operator op, .operand x] := by
  simp [items, snoc]

/-- A chain is one operand, or a shorter chain with a link after it. -/
theorem snoc_induction {α : Type} {motive : Chain α → Prop}
    (operand : ∀ x, motive ⟨x, []⟩)
    (link : ∀ chain op x, motive chain → motive (chain.snoc op x)) (chain : Chain α) :
    motive chain := by
  obtain ⟨first, links⟩ := chain
  induction links using List.reverseRecOn with
  | nil => exact operand first
  | append_singleton links last ih => exact link ⟨first, links⟩ last.1 last.2 ih

end Chain

/-! ### The grammar -/

namespace Grammar

def productOperators : List Operator := [.mul, .div, .rem]

def sumOperators : List Operator := [.add, .sub]

def comparisonOperators : List Operator := [.eq, .ne, .gt, .lt, .ge, .le]

/-- The items form a product with this value. -/
inductive Product : List Item → Option Json → Prop where
  | operand (x : Option Json) : Product [.operand x] x
  | join {items : List Item} {a : Option Json} (op : Operator) (x : Option Json) :
      Product items a → op ∈ productOperators →
      Product (items ++ [.operator op, .operand x]) (op.apply a x)

/-- The items form a sum with this value. -/
inductive Sum : List Item → Option Json → Prop where
  | product {items : List Item} {a : Option Json} : Product items a → Sum items a
  | join {items more : List Item} {a b : Option Json} (op : Operator) :
      Sum items a → op ∈ sumOperators → Product more b →
      Sum (items ++ .operator op :: more) (op.apply a b)

/-- The items form a comparison with this value. -/
inductive Comparison : List Item → Option Json → Prop where
  | sum {items : List Item} {a : Option Json} : Sum items a → Comparison items a
  | join {items more : List Item} {a b : Option Json} (op : Operator) :
      Comparison items a → op ∈ comparisonOperators → Sum more b →
      Comparison (items ++ .operator op :: more) (op.apply a b)

theorem mem_operators (op : Operator) :
    op ∈ comparisonOperators ∨ op ∈ sumOperators ∨ op ∈ productOperators := by
  cases op <;> decide

/-! ### Every chain has a value

A link at the end of a chain goes to the innermost level its operator belongs to:
a product operator lengthens the last product, a sum operator the last sum, and a
comparison opens a new sum. -/

theorem Sum.snoc_product {items : List Item} {a : Option Json} (h : Sum items a)
    {op : Operator} (hop : op ∈ productOperators) (x : Option Json) :
    ∃ b, Sum (items ++ [.operator op, .operand x]) b := by
  cases h with
  | product hp => exact ⟨_, .product (.join op x hp hop)⟩
  | join op' hs hop' hp =>
    rw [List.append_assoc, List.cons_append]
    exact ⟨_, .join op' hs hop' (.join op x hp hop)⟩

theorem Comparison.snoc_product {items : List Item} {a : Option Json} (h : Comparison items a)
    {op : Operator} (hop : op ∈ productOperators) (x : Option Json) :
    ∃ b, Comparison (items ++ [.operator op, .operand x]) b := by
  cases h with
  | sum hs =>
    obtain ⟨b, hb⟩ := hs.snoc_product hop x
    exact ⟨b, .sum hb⟩
  | join op' hc hop' hs =>
    rw [List.append_assoc, List.cons_append]
    obtain ⟨b, hb⟩ := hs.snoc_product hop x
    exact ⟨_, .join op' hc hop' hb⟩

theorem Comparison.snoc_sum {items : List Item} {a : Option Json} (h : Comparison items a)
    {op : Operator} (hop : op ∈ sumOperators) (x : Option Json) :
    ∃ b, Comparison (items ++ [.operator op, .operand x]) b := by
  cases h with
  | sum hs => exact ⟨_, .sum (.join op hs hop (.operand x))⟩
  | join op' hc hop' hs =>
    rw [List.append_assoc, List.cons_append]
    exact ⟨_, .join op' hc hop' (.join op hs hop (.operand x))⟩

/-- **The grammar covers every chain.** -/
theorem comparison_items (chain : Chain (Option Json)) : ∃ a, Comparison chain.items a := by
  induction chain using Chain.snoc_induction with
  | operand x => exact ⟨x, .sum (.product (.operand x))⟩
  | link chain op x ih =>
    obtain ⟨a, ha⟩ := ih
    rw [Chain.items_snoc]
    rcases mem_operators op with hop | hop | hop
    · exact ⟨_, .join op ha hop (.product (.operand x))⟩
    · exact ha.snoc_sum hop x
    · exact ha.snoc_product hop x

end Grammar
end FlowDocs
