/-
  FlowDocs/Proofs/Numeric/Order.lean
  ==================================
  **The order of doubles.**

  A comparison of doubles looks at the sign, then at the exponent, then at the mantissa, so a
  double has a place on a lexicographic scale on which the two zeros are one
  (`compare_eq_compare_place`).  The laws of the order are those of the scale.  Only the double that
  is no number has no place, and no number of a document is turned into that one.
-/
import FlowDocs.Expression.Operator
import FlowDocs.Proofs.Json.Subvalues
import FlowDocs.Proofs.Numeric.Zero

namespace FlowDocs

namespace Numeric

open Float.Model (UnpackedFloat)
open Float.Model.UnpackedFloat

/-! ### The scale -/

/-- Where a double stands on the scale: from minus infinity over the negative numbers, the
    zeros and the positive numbers to infinity, numbers of one sign by exponent and mantissa. -/
def place : UnpackedFloat → ℤ ×ₗ ℤ ×ₗ ℤ
  | .infinity .negative => toLex (-2, toLex (0, 0))
  | .finite .negative m e _ => toLex (-1, toLex (-e, -m))
  | .zero _ => toLex (0, toLex (0, 0))
  | .finite .positive m e _ => toLex (1, toLex (e, m))
  | .infinity .positive => toLex (2, toLex (0, 0))
  | .notANumber => toLex (3, toLex (0, 0))

/-- Two comparisons answer alike when the strict orders on both sides agree. -/
theorem compare_congr {α β : Type} [LinearOrder α] [LinearOrder β] {a b : α} {c d : β}
    (hlt : a < b ↔ c < d) (hgt : b < a ↔ d < c) : compare a b = compare c d := by
  rcases lt_trichotomy a b with h | h | h
  · rw [compare_lt_iff_lt.mpr h, compare_lt_iff_lt.mpr (hlt.mp h)]
  · have hcd : c = d :=
      le_antisymm (not_lt.mp (mt hgt.mpr h.not_gt)) (not_lt.mp (mt hlt.mpr h.not_lt))
    rw [compare_eq_iff_eq.mpr h, compare_eq_iff_eq.mpr hcd]
  · rw [compare_gt_iff_gt.mpr h, compare_gt_iff_gt.mpr (hgt.mp h)]

theorem compare_natCast (a b : ℕ) : compare (a : ℤ) (b : ℤ) = compare a b :=
  compare_congr Int.ofNat_lt Int.ofNat_lt

theorem compare_neg (a b : ℤ) : compare (-a) (-b) = (compare a b).swap := by
  rw [← Std.OrientedOrd.eq_swap]
  exact compare_congr Int.neg_lt_neg_iff Int.neg_lt_neg_iff

/-- **Doubles compare as their places do.** -/
theorem compare_eq_compare_place {x y : UnpackedFloat} (hx : x.isNaN = false)
    (hy : y.isNaN = false) : x.compare y = some (compare (place x) (place y)) := by
  cases x with
  | notANumber => cases hx
  | infinity s =>
    cases y with
    | notANumber => cases hy
    | infinity t => cases s <;> cases t <;> rfl
    | zero t => cases s <;> rfl
    | finite t m e h => cases s <;> cases t <;> rfl
  | zero s =>
    cases y with
    | notANumber => cases hy
    | infinity t => cases t <;> rfl
    | zero t => rfl
    | finite t m e h => cases t <;> rfl
  | finite s m e h =>
    cases y with
    | notANumber => cases hy
    | infinity t => cases s <;> cases t <;> rfl
    | zero t => cases s <;> rfl
    | finite t m' e' h' =>
      cases s with
      | negative =>
        cases t with
        | negative =>
          -- the more negative number has the larger exponent and mantissa
          change some ((compare e e').then (compare m m')).swap =
            some ((compare (-e) (-e')).then (compare (-(m : ℤ)) (-(m' : ℤ))))
          rw [compare_neg, compare_neg, compare_natCast, Ordering.swap_then]
        | positive => rfl
      | positive =>
        cases t with
        | negative => rfl
        | positive =>
          change some ((compare e e').then (compare m m')) =
            some ((compare e e').then (compare (m : ℤ) (m' : ℤ)))
          rw [compare_natCast]

/-! ### Comparing doubles -/

theorem lt_iff (x y : Float) :
    x < y ↔ x.toModel.unpack.compare y.toModel.unpack = some .lt := by
  have hlt : x < y ↔ x.toModel.unpack.lt y.toModel.unpack = true := decide_eq_true_iff
  rw [hlt, UnpackedFloat.lt, beq_iff_eq]

theorem beq_iff (x y : Float) :
    (x == y) = true ↔ x.toModel.unpack.compare y.toModel.unpack = some .eq := by
  have hbeq : (x == y) = x.toModel.unpack.beq y.toModel.unpack := rfl
  rw [hbeq, UnpackedFloat.beq, beq_iff_eq]

section
variable {x y : Float} (hx : x.isNaN = false) (hy : y.isNaN = false)
include hx hy

theorem lt_iff_place : x < y ↔ place x.toModel.unpack < place y.toModel.unpack := by
  rw [lt_iff, compare_eq_compare_place hx hy, Option.some.injEq, compare_lt_iff_lt]

theorem beq_iff_place :
    (x == y) = true ↔ place x.toModel.unpack = place y.toModel.unpack := by
  rw [beq_iff, compare_eq_compare_place hx hy, Option.some.injEq, compare_eq_iff_eq]

theorem compareDoubles_eq :
    Operator.compareDoubles x y =
      some (compare (place x.toModel.unpack) (place y.toModel.unpack)) := by
  have hlt := lt_iff_place hx hy
  have heq := beq_iff_place hx hy
  have hgt := lt_iff_place hy hx
  rw [Operator.compareDoubles]
  rcases lt_trichotomy (place x.toModel.unpack) (place y.toModel.unpack) with h | h | h
  · rw [compare_lt_iff_lt.mpr h, if_pos (hlt.mpr h)]
  · rw [compare_eq_iff_eq.mpr h, if_neg (mt hlt.mp h.not_lt), if_pos (heq.mpr h)]
  · rw [compare_gt_iff_gt.mpr h, if_neg (mt hlt.mp h.asymm), if_neg (mt heq.mp h.ne'),
      if_pos (hgt.mpr h)]

end

/-! ### Numbers of documents -/

theorem isNaN_of_isLong {x : UnpackedFloat} (h : IsLong x) : x.isNaN = false := by
  cases x with
  | notANumber => exact absurd h id
  | infinity s => rfl
  | zero s => rfl
  | finite s m e hpos => rfl

theorem isNaN_ofInt (n : Int) : (Float.ofInt n).isNaN = false := by
  rcases eq_or_ne n 0 with rfl | hn
  · decide
  · exact isNaN_of_isLong (isLong_ofInt hn)

/-- A finite number is a number as a double, too. -/
theorem isNaN_toFloat {n : Number} (h : n.isFinite = true) : n.toFloat.isNaN = false := by
  cases n with
  | integer n => exact isNaN_ofInt n
  | double x =>
    change x.toModel.unpack.isFinite = true at h
    change x.toModel.unpack.isNaN = false
    cases hx : x.toModel.unpack with
    | notANumber =>
      rw [hx] at h
      cases h
    | infinity s => rfl
    | zero s => rfl
    | finite s m e hpos => rfl

end Numeric
end FlowDocs
