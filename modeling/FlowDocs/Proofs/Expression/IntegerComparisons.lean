/-
  FlowDocs/Proofs/Expression/IntegerComparisons.lean
  ==================================================
  **Integers are compared through their doubles.**

  A comparison of two integers of 64 bits compares the doubles nearest to them.  It answers as
  the integers stand to each other unless two different integers share a double
  (`integers_compared`), and that takes two integers beyond `2 ^ 53 - 1`: there the comparison
  takes neighbours for equal (`neighbours_equal`).
-/
import FlowDocs.Proofs.Expression.Comparisons
import FlowDocs.Proofs.Json.WellFormed
import FlowDocs.Proofs.Numeric.Nearest

namespace FlowDocs

open Operator

/-- The comparisons of the operands answer as the two integers stand to each other. -/
structure AnswersAs (left right : Option Json) (a b : Int) : Prop where
  eq_iff : eq.Holds left right ↔ a = b
  ne_iff : ne.Holds left right ↔ a ≠ b
  lt_iff : lt.Holds left right ↔ a < b
  ge_iff : ge.Holds left right ↔ b ≤ a

/-- Integers of 64 bits are far below the largest double. -/
theorem log2_le_of_isWord {n : Int} (h : (Number.integer n).IsWord) : n.natAbs.log2 ≤ 1022 := by
  obtain ⟨hlow, hhigh⟩ := h
  have hlt : n.natAbs < 2 ^ 64 := by
    rw [Json.maxNegated] at hlow
    rw [Json.maxWord] at hhigh
    omega
  rcases Nat.eq_zero_or_pos n.natAbs with hzero | hpos
  · rw [hzero]
    decide
  · have hlog := (Nat.log2_lt hpos.ne').mpr hlt
    omega

section
variable {a b : Int} (ha : (Number.integer a).IsWord) (hb : (Number.integer b).IsWord)
include ha hb

theorem compare_ofInt :
    (Float.ofInt a).toModel.unpack.compare (Float.ofInt b).toModel.unpack =
      some (compare (Numeric.nearest a) (Numeric.nearest b)) :=
  Numeric.compare_of_isInteger (Numeric.isInteger_nearest (log2_le_of_isWord ha))
    (Numeric.isInteger_nearest (log2_le_of_isWord hb))

theorem order_integers :
    order (some (.int a)) (some (.int b)) =
      some (compare (Numeric.nearest a) (Numeric.nearest b)) := by
  have hx := Numeric.isNaN_ofInt a
  have hy := Numeric.isNaN_ofInt b
  rw [← compare_ofInt ha hb, Numeric.compare_eq_compare_place hx hy]
  exact Numeric.compareDoubles_eq hx hy

theorem equals_integers :
    equals (some (.int a)) (some (.int b)) = true ↔ Numeric.nearest a = Numeric.nearest b := by
  have hbeq : equals (some (.int a)) (some (.int b)) = true ↔
      (Float.ofInt a).toModel.unpack.compare (Float.ofInt b).toModel.unpack = some .eq :=
    Numeric.beq_iff _ _
  rw [hbeq, compare_ofInt ha hb, Option.some.injEq, compare_eq_iff_eq]

theorem answersAs_nearest :
    AnswersAs (some (.int a)) (some (.int b)) (Numeric.nearest a) (Numeric.nearest b) := by
  have horder := order_integers ha hb
  have hequals := equals_integers ha hb
  constructor
  case eq_iff => exact holds_eq_iff.trans hequals
  case ne_iff => exact holds_ne_iff.trans (not_congr hequals)
  case lt_iff => rw [holds_lt_iff, horder, Option.some.injEq, compare_lt_iff_lt]
  case ge_iff =>
    rw [holds_ge_iff, horder, Option.some.injEq, Option.some.injEq, compare_gt_iff_gt,
      compare_eq_iff_eq]
    omega

end

/-! ### Where that is a comparison by value -/

/-- An integer whose neighbours are doubles, too, shares its double with no other integer. -/
theorem eq_of_nearest_eq {a b : Int} (ha : a.natAbs ≤ Number.maxExact)
    (h : Numeric.nearest a = Numeric.nearest b) : a = b := by
  have hmax : Number.maxExact = 2 ^ 53 - 1 := rfl
  have hself : Numeric.nearest a = a := Numeric.nearest_of_le (by omega)
  rcases Int.lt_trichotomy a b with hlt | heq | hgt
  · have hnext : Numeric.nearest (a + 1) = a + 1 := Numeric.nearest_of_le (by omega)
    have hmono : Numeric.nearest (a + 1) ≤ Numeric.nearest b := Numeric.nearest_mono hlt
    omega
  · exact heq
  · have hbefore : Numeric.nearest (a - 1) = a - 1 := Numeric.nearest_of_le (by omega)
    have hmono : Numeric.nearest b ≤ Numeric.nearest (a - 1) :=
      Numeric.nearest_mono (Int.le_sub_one_of_lt hgt)
    omega

/-- The nearest of two integers stand to each other as the integers do, unless they are one. -/
theorem answersAs_iff {left right : Option Json} {a b : Int}
    (hanswers : AnswersAs left right (Numeric.nearest a) (Numeric.nearest b)) :
    AnswersAs left right a b ↔ (Numeric.nearest a = Numeric.nearest b → a = b) := by
  constructor
  · exact fun hvalue heq => hvalue.eq_iff.mp (hanswers.eq_iff.mpr heq)
  · intro hinjective
    have heq : Numeric.nearest a = Numeric.nearest b ↔ a = b := ⟨hinjective, congrArg _⟩
    have hlt : Numeric.nearest a < Numeric.nearest b ↔ a < b := by
      constructor
      · intro hlt
        by_contra hnot
        exact (Numeric.nearest_mono (Int.not_lt.mp hnot)).not_gt hlt
      · exact fun hlt => lt_of_le_of_ne (Numeric.nearest_mono hlt.le) fun h => hlt.ne (heq.mp h)
    constructor
    case eq_iff => exact hanswers.eq_iff.trans heq
    case ne_iff => exact hanswers.ne_iff.trans (not_congr heq)
    case lt_iff => exact hanswers.lt_iff.trans hlt
    case ge_iff => rw [hanswers.ge_iff, ← Int.not_lt, hlt, Int.not_lt]

/-- **What a comparison of two integers compares.**  It compares the nearest doubles.  That is
    a comparison by value exactly when the two integers are equal or have different doubles, and
    so it is if one of them is at most `2 ^ 53 - 1` in magnitude. -/
theorem integers_compared {a b : Int} (ha : (Number.integer a).IsWord)
    (hb : (Number.integer b).IsWord) :
    AnswersAs (some (.int a)) (some (.int b)) (Numeric.nearest a) (Numeric.nearest b) ∧
    (AnswersAs (some (.int a)) (some (.int b)) a b ↔
      (Numeric.nearest a = Numeric.nearest b → a = b)) ∧
    (a.natAbs ≤ Number.maxExact ∨ b.natAbs ≤ Number.maxExact →
      AnswersAs (some (.int a)) (some (.int b)) a b) := by
  have hanswers := answersAs_nearest ha hb
  refine ⟨hanswers, answersAs_iff hanswers, fun h => (answersAs_iff hanswers).mpr fun heq => ?_⟩
  rcases h with h | h
  · exact eq_of_nearest_eq h heq
  · exact (eq_of_nearest_eq h heq.symm).symm

theorem integers_compared_at_limit :
    (Number.integer 9007199254740991).IsWord ∧ (Number.integer 18446744073709551615).IsWord ∧
      AnswersAs (some (.int 9007199254740991)) (some (.int 18446744073709551615))
        9007199254740991 18446744073709551615 := by
  have ha : (Number.integer 9007199254740991).IsWord := by decide
  have hb : (Number.integer 18446744073709551615).IsWord := by decide
  exact ⟨ha, hb, (integers_compared ha hb).2.2 (Or.inl (by decide))⟩

/-- Neighbours beyond the limit share a double, and are equal to a comparison. -/
theorem neighbours_equal :
    ¬ ∀ a b : Int, (Number.integer a).IsWord → (Number.integer b).IsWord →
      AnswersAs (some (.int a)) (some (.int b)) a b := by
  intro h
  have hvalue := h 9007199254740993 9007199254740992 (by decide) (by decide)
  exact absurd (hvalue.eq_iff.mp (by decide)) (by decide)

end FlowDocs
