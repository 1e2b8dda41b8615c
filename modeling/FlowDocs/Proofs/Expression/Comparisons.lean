/-
  FlowDocs/Proofs/Expression/Comparisons.lean
  ===========================================
  **Equality and order agree.**

  Equality and order of operands are two definitions with cases of their own.  On two numbers,
  two strings or two booleans both come from one linear order: the order is defined, it is the
  opposite order the other way round, and it is `eq` exactly where equality holds
  (`order_of_comparable`).  All laws of the six comparisons follow from that.  On every other pair
  the order is undefined and equality stands alone; it is an equivalence of values as far as
  reflexivity and symmetry go.
-/
import FlowDocs.Proofs.Expression.ResultKinds
import FlowDocs.Proofs.Json.Sameness

namespace FlowDocs

/-- Two numbers, two strings or two booleans. -/
inductive Comparable : Option Json → Option Json → Prop
  | numbers (a b : Number) : Comparable (some (.num a)) (some (.num b))
  | texts (a b : String) : Comparable (some (.str a)) (some (.str b))
  | booleans (a b : Bool) : Comparable (some (.bool a)) (some (.bool b))

theorem Comparable.symm {left right : Option Json} (h : Comparable left right) :
    Comparable right left := by
  cases h with
  | numbers a b => exact .numbers b a
  | texts a b => exact .texts b a
  | booleans a b => exact .booleans b a

/-- An operand that is missing, or a value as documents and literals give it. -/
def RegularOperand (operand : Option Json) : Prop := ∀ value ∈ operand, value.Regular

instance (operand : Option Json) : Decidable (RegularOperand operand) :=
  inferInstanceAs (Decidable (∀ value ∈ operand, value.Regular))

namespace Operator

/-! ### What a comparison answers -/

def Holds (op : Operator) (left right : Option Json) : Prop :=
  op.apply left right = some (.bool true)

def Fails (op : Operator) (left right : Option Json) : Prop :=
  op.apply left right = some (.bool false)

instance (op : Operator) (left right : Option Json) : Decidable (op.Holds left right) :=
  inferInstanceAs (Decidable (op.apply left right = some (.bool true)))

section
variable {left right : Option Json}

theorem fails_iff {op : Operator} (hop : op ∈ Grammar.comparisonOperators) :
    op.Fails left right ↔ ¬ op.Holds left right := by
  obtain ⟨b, hb⟩ := apply_comparison hop left right
  rw [Fails, Holds, hb]
  cases b <;> simp

theorem holds_eq_iff : eq.Holds left right ↔ equals left right = true := by
  simp [Holds, apply]

theorem holds_ne_iff : ne.Holds left right ↔ ¬ equals left right = true := by
  simp [Holds, apply]

theorem holds_lt_iff : lt.Holds left right ↔ order left right = some .lt := by
  simp [Holds, apply]

theorem holds_gt_iff : gt.Holds left right ↔ order left right = some .gt := by
  simp [Holds, apply]

theorem holds_le_iff :
    le.Holds left right ↔ order left right = some .lt ∨ order left right = some .eq := by
  simp [Holds, apply]

theorem holds_ge_iff :
    ge.Holds left right ↔ order left right = some .gt ∨ order left right = some .eq := by
  simp [Holds, apply]

end

/-! ### The order of two comparable operands -/

theorem compareTexts_eq (a b : String) : compareTexts a b = compare a b := by
  rcases lt_trichotomy a b with h | rfl | h
  · rw [compare_lt_iff_lt.mpr h, compareTexts, if_pos h]
  · rw [Std.compare_self, compareTexts, if_neg (lt_irrefl a), if_pos rfl]
  · rw [compare_gt_iff_gt.mpr h, compareTexts, if_neg h.asymm, if_neg h.ne']

/-- **Order and equality of comparable operands.**  The order is defined, it is turned round
    with the operands, and it is `eq` where the operands are equal and nowhere else. -/
theorem order_of_comparable {left right : Option Json} (h : Comparable left right)
    (hleft : RegularOperand left) (hright : RegularOperand right) :
    ∃ o, order left right = some o ∧ order right left = some o.swap ∧
      (equals left right = true ↔ o = .eq) := by
  cases h with
  | numbers a b =>
    have ha := Numeric.isNaN_toFloat (Json.finite_num.mp (hleft _ rfl).finite)
    have hb := Numeric.isNaN_toFloat (Json.finite_num.mp (hright _ rfl).finite)
    refine ⟨_, Numeric.compareDoubles_eq ha hb, ?_, ?_⟩
    · rw [← Std.OrientedOrd.eq_swap]
      exact Numeric.compareDoubles_eq hb ha
    · rw [compare_eq_iff_eq]
      exact Numeric.beq_iff_place ha hb
  | texts a b =>
    refine ⟨compare a b, congrArg some (compareTexts_eq a b), ?_, ?_⟩
    · rw [← Std.OrientedOrd.eq_swap]
      exact congrArg some (compareTexts_eq b a)
    · rw [compare_eq_iff_eq]
      exact beq_iff_eq
  | booleans a b =>
    refine ⟨compare a b, rfl, ?_, ?_⟩
    · rw [← Std.OrientedOrd.eq_swap]
      rfl
    · rw [compare_eq_iff_eq]
      exact beq_iff_eq

theorem comparable_of_order {left right : Option Json} {o : Ordering}
    (h : order left right = some o) : Comparable left right := by
  unfold order at h
  split at h
  · exact .numbers _ _
  · exact .texts _ _
  · exact .booleans _ _
  · cases h

theorem order_lt_trans {a b c : Option Json} (ha : RegularOperand a) (hb : RegularOperand b)
    (hc : RegularOperand c) (hab : order a b = some .lt) (hbc : order b c = some .lt) :
    order a c = some .lt := by
  cases comparable_of_order hab with
  | numbers x y =>
    cases comparable_of_order hbc with
    | numbers _ z =>
      have hx := Numeric.isNaN_toFloat (Json.finite_num.mp (ha _ rfl).finite)
      have hy := Numeric.isNaN_toFloat (Json.finite_num.mp (hb _ rfl).finite)
      have hz := Numeric.isNaN_toFloat (Json.finite_num.mp (hc _ rfl).finite)
      rw [order, Numeric.compareDoubles_eq hx hy, Option.some.injEq, compare_lt_iff_lt] at hab
      rw [order, Numeric.compareDoubles_eq hy hz, Option.some.injEq, compare_lt_iff_lt] at hbc
      rw [order, Numeric.compareDoubles_eq hx hz, compare_lt_iff_lt.mpr (hab.trans hbc)]
  | texts x y =>
    cases comparable_of_order hbc with
    | texts _ z =>
      rw [order, compareTexts_eq, Option.some.injEq, compare_lt_iff_lt] at hab hbc
      rw [order, compareTexts_eq, compare_lt_iff_lt.mpr (hab.trans hbc)]
  | booleans x y =>
    cases comparable_of_order hbc with
    | booleans _ z =>
      rw [order, Option.some.injEq, compare_lt_iff_lt] at hab hbc
      rw [order, compare_lt_iff_lt.mpr (hab.trans hbc)]

/-! ### Equality of any two operands -/

/-- Values of which one is no number are compared by structure. -/
theorem equals_of_not_comparable {a b : Json} (h : ¬ Comparable (some a) (some b)) :
    equals (some a) (some b) = a.same b := by
  cases a with
  | num x =>
    cases b with
    | num y => exact absurd (.numbers x y) h
    | _ => rfl
  | _ => rfl

theorem equals_self {operand : Option Json} (h : RegularOperand operand) :
    equals operand operand = true := by
  cases operand with
  | none => rfl
  | some value =>
    cases value with
    | num n =>
      have hn := Numeric.isNaN_toFloat (Json.finite_num.mp (h _ rfl).finite)
      exact (Numeric.beq_iff_place hn hn).mpr rfl
    | _ => exact Json.same_self (h _ rfl)

theorem equals_symm {left right : Option Json} (hleft : RegularOperand left)
    (hright : RegularOperand right) (h : equals left right = true) :
    equals right left = true := by
  cases left with
  | none =>
    cases right with
    | none => rfl
    | some b => cases h
  | some a =>
    cases right with
    | none => cases a <;> cases h
    | some b =>
      by_cases hcomparable : Comparable (some a) (some b)
      · -- two numbers are the only values that are not compared by structure
        obtain ⟨o, -, hswap, heq⟩ := order_of_comparable hcomparable hleft hright
        obtain ⟨o', horder, -, heq'⟩ := order_of_comparable hcomparable.symm hright hleft
        rw [hswap, heq.mp h] at horder
        exact heq'.mpr (Option.some.inj horder).symm
      · rw [equals_of_not_comparable hcomparable] at h
        rw [equals_of_not_comparable fun hc => hcomparable hc.symm]
        exact Json.same_symm (hleft a rfl) (hright b rfl) h

theorem equals_comm {left right : Option Json} (hleft : RegularOperand left)
    (hright : RegularOperand right) : equals left right = equals right left := by
  rw [Bool.eq_iff_iff]
  exact ⟨equals_symm hleft hright, equals_symm hright hleft⟩

end Operator

/-! ### The laws -/

open Operator

/-- Two operands stand in a linear order: one of three relations holds, the weak ones are the
    strict ones or equality, and each is its opposite with the operands exchanged. -/
structure LinearlyOrdered (left right : Option Json) : Prop where
  one : lt.Holds left right ∧ eq.Fails left right ∧ gt.Fails left right ∨
    lt.Fails left right ∧ eq.Holds left right ∧ gt.Fails left right ∨
    lt.Fails left right ∧ eq.Fails left right ∧ gt.Holds left right
  le_iff : le.Holds left right ↔ lt.Holds left right ∨ eq.Holds left right
  ge_iff : ge.Holds left right ↔ gt.Holds left right ∨ eq.Holds left right
  lt_exchanged : lt.apply left right = gt.apply right left
  le_exchanged : le.apply left right = ge.apply right left

/-- Two operands that have no order: every comparison but the two of equality is false. -/
def Unordered (left right : Option Json) : Prop :=
  ∀ op ∈ [lt, le, gt, ge], op.Fails left right

theorem linearlyOrdered {left right : Option Json} (h : Comparable left right)
    (hleft : RegularOperand left) (hright : RegularOperand right) :
    LinearlyOrdered left right := by
  obtain ⟨o, horder, hswap, heq⟩ := order_of_comparable h hleft hright
  have hlt : lt.Holds left right ↔ o = .lt := by rw [holds_lt_iff, horder, Option.some.injEq]
  have hgt : gt.Holds left right ↔ o = .gt := by rw [holds_gt_iff, horder, Option.some.injEq]
  have heq : eq.Holds left right ↔ o = .eq := holds_eq_iff.trans heq
  constructor
  case one =>
    rw [fails_iff (by decide), fails_iff (by decide), fails_iff (by decide), hlt, hgt, heq]
    cases o <;> decide
  case le_iff =>
    rw [holds_le_iff, horder, hlt, heq, Option.some.injEq, Option.some.injEq]
  case ge_iff =>
    rw [holds_ge_iff, horder, hgt, heq, Option.some.injEq, Option.some.injEq]
  case lt_exchanged =>
    rw [apply, apply, horder, hswap]
    cases o <;> rfl
  case le_exchanged =>
    rw [apply, apply, horder, hswap]
    cases o <;> rfl

theorem unordered {left right : Option Json} (h : ¬ Comparable left right) :
    Unordered left right := by
  have horder : order left right = none := by
    rw [Option.eq_none_iff_forall_ne_some]
    exact fun o ho => h (comparable_of_order ho)
  intro op hop
  fin_cases hop <;> simp [Fails, apply, horder]

/-- **Equality and order are consistent.**  Two numbers, two strings or two booleans stand in a
    linear order, and `<` is transitive on them.  No other two operands are ordered.  Equality
    is reflexive and symmetric on all operands, and inequality is its negation. -/
theorem comparisons_consistent {a b : Option Json} (ha : RegularOperand a)
    (hb : RegularOperand b) :
    (Comparable a b → LinearlyOrdered a b ∧
      ∀ c, RegularOperand c → lt.Holds a b → lt.Holds b c → lt.Holds a c) ∧
    (¬ Comparable a b → Unordered a b) ∧
    eq.Holds a a ∧ eq.apply a b = eq.apply b a ∧
    (ne.Holds a b ↔ eq.Fails a b) ∧ (ne.Fails a b ↔ eq.Holds a b) := by
  refine ⟨fun h => ⟨linearlyOrdered h ha hb, ?_⟩, unordered, ?_, ?_, ?_, ?_⟩
  · intro c hc hab hbc
    rw [holds_lt_iff] at hab hbc ⊢
    exact order_lt_trans ha hb hc hab hbc
  · exact holds_eq_iff.mpr (equals_self ha)
  · rw [apply, apply, equals_comm ha hb]
  · rw [fails_iff (by decide), holds_ne_iff, holds_eq_iff]
  · rw [fails_iff (by decide), holds_ne_iff, holds_eq_iff, not_not]

/-- An integer and a double are two numbers. -/
theorem comparisons_consistent_numbers :
    RegularOperand (some (.int 2)) ∧ RegularOperand (some (.num (.double 2.5))) ∧
      RegularOperand (some (.int 3)) ∧
      LinearlyOrdered (some (.int 2)) (some (.num (.double 2.5))) ∧
      lt.Holds (some (.int 2)) (some (.num (.double 2.5))) ∧
      lt.Holds (some (.num (.double 2.5))) (some (.int 3)) ∧
      lt.Holds (some (.int 2)) (some (.int 3)) ∧
    RegularOperand (some (.arr [.int 2])) ∧
      ¬ Comparable (some (.int 2)) (some (.arr [.int 2])) ∧
      Unordered (some (.int 2)) (some (.arr [.int 2])) := by
  have htwo : RegularOperand (some (.int 2)) := by decide
  have hhalf : RegularOperand (some (.num (.double 2.5))) := by decide
  have hthree : RegularOperand (some (.int 3)) := by decide
  have harray : RegularOperand (some (.arr [.int 2])) := by decide
  have hlow : lt.Holds (some (.int 2)) (some (.num (.double 2.5))) := by decide
  have hhigh : lt.Holds (some (.num (.double 2.5))) (some (.int 3)) := by decide
  have hmixed : ¬ Comparable (some (.int 2)) (some (.arr [.int 2])) := by rintro ⟨⟩
  obtain ⟨hordered, htrans⟩ :=
    (comparisons_consistent htwo hhalf).1 (.numbers (.integer 2) (.double 2.5))
  exact ⟨htwo, hhalf, hthree, hordered, hlow, hhigh, htrans _ hthree hlow hhigh, harray,
    hmixed, (comparisons_consistent htwo harray).2.1 hmixed⟩

end FlowDocs
