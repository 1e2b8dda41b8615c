/-
  FlowDocs/Proofs/Expression/Arithmetic.lean
  ==========================================
  **Arithmetic is safe: finite, zero, or undefined.**

  An arithmetic operator computes on doubles, and what comes out is a finite number or
  nothing.  A zero on the right of a division or a remainder gives zero, not an infinity.
  A result that overflows, or is no number, is undefined, and it stays undefined through
  every arithmetic phrase it is part of.  So a chain of finite operands has no value with
  an infinite number in it.
-/
import FlowDocs.Proofs.Expression.MaximalMunch
import FlowDocs.Proofs.Expression.Precedence
import FlowDocs.Proofs.Json.Subvalues
import FlowDocs.Proofs.Numeric.Zero

namespace FlowDocs

theorem Number.isFinite_of_ofFloat? {x : Float} {n : Number} (h : Number.ofFloat? x = some n) :
    n.isFinite = true := by
  have hfinite : x.isFinite = true := by
    rw [← Bool.not_eq_false, ← Numeric.ofFloat?_eq_none_iff, h]
    exact Option.some_ne_none n
  rw [Number.ofFloat?] at h
  split at h
  · split at h
    · cases h; rfl
    · cases h; exact hfinite
  · obtain ⟨-, hn⟩ := Option.ite_none_right_eq_some.mp h
    cases hn
    exact hfinite

namespace Operator

/-- What an arithmetic operator computes on doubles; a comparison computes nothing. -/
def onDoubles? : Operator → Option (Float → Float → Float)
  | .add => some (· + ·)
  | .sub => some (· - ·)
  | .mul => some (· * ·)
  | .div => some quotient
  | .rem => some remainder
  | .eq | .ne | .gt | .lt | .ge | .le => none

variable {op : Operator} {f : Float → Float → Float}

theorem apply_of_onDoubles? (h : op.onDoubles? = some f) (left right : Option Json) :
    op.apply left right = arithmetic f left right := by
  cases op <;> cases h <;> rfl

/-- **A step that overflows is undefined, and no other step on numbers is.** -/
theorem apply_num_eq_none_iff (h : op.onDoubles? = some f) (a b : Number) :
    op.apply (some (.num a)) (some (.num b)) = none ↔ (f a.toFloat b.toFloat).isFinite = false := by
  rw [apply_of_onDoubles? h, arithmetic, Option.map_eq_none_iff, Numeric.ofFloat?_eq_none_iff]

theorem apply_none_left (h : op.onDoubles?.isSome) (right : Option Json) :
    op.apply none right = none := by
  obtain ⟨f, hf⟩ := Option.isSome_iff_exists.mp h
  rw [apply_of_onDoubles? hf]
  rfl

theorem apply_none_right (h : op.onDoubles?.isSome) (left : Option Json) :
    op.apply left none = none := by
  obtain ⟨f, hf⟩ := Option.isSome_iff_exists.mp h
  rw [apply_of_onDoubles? hf, arithmetic]
  rintro a b - ⟨⟩

/-- **Dividing by a zero gives the integer zero.** -/
theorem apply_zero (hop : op = .div ∨ op = .rem) (a : Number) {b : Number} (hb : b.IsZero) :
    op.apply (some (.num a)) (some (.num b)) = some (.num (.integer 0)) := by
  have hzero : Number.ofFloat? 0.0 = some (.integer 0) := by decide
  have hb := (Numeric.toFloat_beq_zero_iff b).mpr hb
  rcases hop with rfl | rfl
  · rw [apply, arithmetic, quotient, if_pos hb, hzero, Option.map_some]
  · rw [apply, arithmetic, remainder, if_pos hb, hzero, Option.map_some]

/-- Whatever an operator is applied to, its value has finite numbers only. -/
theorem finite_of_apply {left right : Option Json} {value : Json}
    (h : op.apply left right = some value) : value.Finite := by
  cases hdoubles : op.onDoubles? with
  | none =>
    have hbool : ∃ b, value = .bool b := by
      cases op with
      | eq | ne | gt | lt | ge | le => cases h; exact ⟨_, rfl⟩
      | add | sub | mul | div | rem => cases hdoubles
    obtain ⟨b, rfl⟩ := hbool
    exact List.forall_mem_nil _
  | some f =>
    rw [apply_of_onDoubles? hdoubles] at h
    unfold arithmetic at h
    split at h
    · obtain ⟨n, hn, rfl⟩ := Option.map_eq_some_iff.mp h
      exact Json.finite_num.mpr (Number.isFinite_of_ofFloat? hn)
    · cases h

end Operator

/-! ### Undefined results inside phrases -/

namespace Grammar

/-- The items form a product with this value that goes on from the inner phrase with the
    value `a`. -/
inductive ProductAround (inner : List Item) (a : Option Json) : List Item → Option Json → Prop where
  | itself : Product inner a → ProductAround inner a inner a
  | join {items : List Item} {b : Option Json} (op : Operator) (x : Option Json) :
      ProductAround inner a items b → op ∈ productOperators →
      ProductAround inner a (items ++ [.operator op, .operand x]) (op.apply b x)

/-- The items form a sum with this value that has the inner phrase with the value `a` in
    it: at its start, or in one of its products. -/
inductive SumAround (inner : List Item) (a : Option Json) : List Item → Option Json → Prop where
  | itself : Sum inner a → SumAround inner a inner a
  | product {items : List Item} {b : Option Json} :
      ProductAround inner a items b → SumAround inner a items b
  | join {items more : List Item} {b c : Option Json} (op : Operator) :
      SumAround inner a items b → op ∈ sumOperators → Product more c →
      SumAround inner a (items ++ .operator op :: more) (op.apply b c)
  | joined {items more : List Item} {b c : Option Json} (op : Operator) :
      Sum items b → op ∈ sumOperators → ProductAround inner a more c →
      SumAround inner a (items ++ .operator op :: more) (op.apply b c)

theorem isSome_onDoubles?_of_mem_product : ∀ op ∈ productOperators, op.onDoubles?.isSome := by
  decide

theorem isSome_onDoubles?_of_mem_sum : ∀ op ∈ sumOperators, op.onDoubles?.isSome := by
  decide

variable {inner items : List Item} {a b : Option Json}

theorem ProductAround.toProduct (h : ProductAround inner a items b) : Product items b := by
  induction h with
  | itself h => exact h
  | join op x _ hop ih => exact .join op x ih hop

theorem SumAround.toSum (h : SumAround inner a items b) : Sum items b := by
  induction h with
  | itself h => exact h
  | product h => exact .product h.toProduct
  | join op _ hop hmore ih => exact .join op ih hop hmore
  | joined op hitems hop hmore => exact .join op hitems hop hmore.toProduct

theorem ProductAround.eq_none (h : ProductAround inner none items b) : b = none := by
  induction h with
  | itself h => rfl
  | join op x _ hop ih =>
    rw [ih]
    exact Operator.apply_none_left (isSome_onDoubles?_of_mem_product op hop) x

/-- **An undefined result stays undefined** through every product and sum around it. -/
theorem SumAround.eq_none (h : SumAround inner none items b) : b = none := by
  induction h with
  | itself h => rfl
  | product h => exact h.eq_none
  | join op _ hop hmore ih =>
    rw [ih]
    exact Operator.apply_none_left (isSome_onDoubles?_of_mem_sum op hop) _
  | joined op hitems hop hmore =>
    rw [hmore.eq_none]
    exact Operator.apply_none_right (isSome_onDoubles?_of_mem_sum op hop) _

end Grammar

/-- A chain that is one sum with an undefined result in it has no value. -/
theorem evaluateChain_of_sumAround {supply : Supply} {context : Context} {chain : Chain Operand}
    {inner : List Item} {value : Option Json}
    (h : Grammar.SumAround inner none (chain.resolved supply context).items value) :
    evaluateChain supply context chain.tokens = none := by
  rw [evaluateChain_eq_reduce, Chain.resolveAll_tokens, ← h.eq_none]
  exact (Grammar.Comparison.sum h.toSum).reduce_eq

/-! ### Finite numbers through the reduction -/

/-- What an operand stands for has finite numbers only. -/
def FiniteOperand (operand : Option Json) : Prop := ∀ value ∈ operand, value.Finite

namespace Reduction

variable {values : Values}

theorem finite_collapse (op : Operator) (h : ∀ x ∈ values, FiniteOperand x) :
    ∀ x ∈ collapse op values, FiniteOperand x := by
  have happly : ∀ left right, FiniteOperand (op.apply left right) :=
    fun left right value hvalue => Operator.finite_of_apply hvalue
  match values with
  | right :: left :: values =>
    have hrest := (List.forall_mem_cons.mp (List.forall_mem_cons.mp h).2).2
    exact List.forall_mem_cons.mpr ⟨happly left right, hrest⟩
  | [right] => exact List.forall_mem_singleton.mpr (happly none right)
  | [] => exact List.forall_mem_singleton.mpr (happly none none)

theorem finite_unwind (level : Nat) (h : ∀ x ∈ values, FiniteOperand x) (pending : List Operator) :
    ∀ x ∈ (unwind level values pending).1, FiniteOperand x := by
  induction pending generalizing values with
  | nil => exact h
  | cons op pending ih =>
    rw [unwind]
    split
    · exact h
    · exact ih (finite_collapse op h)

/-- Reading an item keeps the values finite. -/
theorem finite_push {state : Values × List Operator} {item : Item}
    (h : ∀ x ∈ state.1, FiniteOperand x) (hitem : ∀ x, item = .operand x → FiniteOperand x) :
    ∀ x ∈ (push state item).1, FiniteOperand x := by
  cases item with
  | operand x => exact List.forall_mem_cons.mpr ⟨hitem x rfl, h⟩
  | operator op => exact finite_unwind op.precedence h state.2

theorem finite_foldl {state : Values × List Operator} {items : List Item}
    (h : ∀ x ∈ state.1, FiniteOperand x) (hitems : ∀ x, .operand x ∈ items → FiniteOperand x) :
    ∀ x ∈ (items.foldl push state).1, FiniteOperand x := by
  induction items generalizing state with
  | nil => exact h
  | cons item rest ih =>
    have hpush := finite_push h fun x hx => hitems x (hx ▸ List.mem_cons_self)
    exact ih hpush fun x hx => hitems x (List.mem_cons_of_mem item hx)

end Reduction

/-- **A chain of finite operands has a finite value,** well-formed or not. -/
theorem finite_reduce {items : List Item} (h : ∀ x, .operand x ∈ items → FiniteOperand x) :
    FiniteOperand (reduce items) := by
  intro value hvalue
  rw [reduce, Option.mem_def, Option.join_eq_some_iff] at hvalue
  have hread := @Reduction.finite_foldl ([], []) items (List.forall_mem_nil _) h
  exact Reduction.finite_unwind 0 hread _ _ (List.mem_of_getLast? hvalue) value rfl

/-! ### Literals -/

theorem isFinite_of_finiteNonneg {n : Number} (h : n.FiniteNonneg) : n.isFinite = true := by
  cases n with
  | integer n => rfl
  | double x => exact h.1

/-- The literals of a text are finite, however many digits they have. -/
theorem finite_of_mem_tokenize {text : List Char} {value : Json}
    (h : .literal value ∈ tokenize text) : value.Finite := by
  obtain ⟨rule, chars, rest, hreads⟩ := mem_tokenize h
  cases isLiteral_of_reads hreads with
  | num hn => exact Json.finite_num.mpr (isFinite_of_finiteNonneg hn)
  | _ => exact List.forall_mem_nil _

end FlowDocs
