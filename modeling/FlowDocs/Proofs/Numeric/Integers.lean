/-
  FlowDocs/Proofs/Numeric/Integers.lean
  =====================================
  **Doubles that hold integers.**

  A double holds an integer when its mantissa of 53 bits, moved by its exponent, is the magnitude
  of the integer (`IsInteger`).  Two doubles that hold integers compare as the integers do
  (`compare_of_isInteger`).  Below `2 ^ 53` the fields of the double are determined by the
  integer (`IsInteger.fields`), and rounding arrives at them from every other pair of a mantissa
  and an exponent with the same value (`isInteger_normalize`).
-/
import FlowDocs.Proofs.Numeric.Order

namespace FlowDocs

namespace Numeric

open Float.Model (UnpackedFloat Format totalExponent)
open Float.Model.UnpackedFloat

/-- The double holds the integer.  The exponents are those of numbers from one up to the
    largest, so that both sides of the equation are natural numbers. -/
inductive IsInteger : UnpackedFloat → Int → Prop where
  | zero (sign : Sign) : IsInteger (.zero sign) 0
  | finite (sign : Sign) {m n : Nat} {e : Int} (hpos : 0 < m) (hlog : m.log2 = 52)
      (hlow : -52 ≤ e) (hhigh : e ≤ 971) (hvalue : m * 2 ^ (e + 52).toNat = n * 2 ^ 52) :
      IsInteger (.finite sign m e hpos) (sign.apply n)

section
variable {x y : UnpackedFloat} {a b : Int}

/-- Packing loses nothing. -/
theorem isInteger_unpack_pack (h : IsInteger x a) :
    IsInteger (unpack .binary64 (pack .binary64 x)) a := by
  cases h with
  | zero sign =>
    have hzero : unpack .binary64 (pack .binary64 (.zero sign)) = .zero sign := by
      cases sign <;> rfl
    rw [hzero]
    exact .zero sign
  | finite sign hpos hlog hlow hhigh hvalue =>
    rw [unpack_pack_normal hlog (by omega) hhigh hpos]
    exact .finite sign hpos hlog hlow hhigh hvalue

theorem isInteger_neg (h : IsInteger x a) : IsInteger x.neg (-a) := by
  cases h with
  | zero sign => exact .zero (-sign)
  | @finite sign m n e hpos hlog hlow hhigh hvalue =>
    have hsign : (-sign).apply (n : Int) = -sign.apply (n : Int) := by
      cases sign with
      | positive => rfl
      | negative => exact (neg_neg (n : Int)).symm
    rw [← hsign]
    exact .finite (-sign) hpos hlog hlow hhigh hvalue

/-! ### Order -/

/-- Of two numbers with mantissas of 53 bits the one with the larger exponent is larger. -/
theorem compare_mul_two_pow {m m' k k' : Nat} (hlog : m.log2 = 52) (hlog' : m'.log2 = 52) :
    compare (m * 2 ^ k) (m' * 2 ^ k') = (compare k k').then (compare m m') := by
  have hlt : ∀ {m m' k k' : Nat}, m.log2 = 52 → m'.log2 = 52 → k < k' →
      m * 2 ^ k < m' * 2 ^ k' := by
    intro m m' k k' hlog hlog' hk
    have hm : m < 2 ^ 53 := by
      rw [← Nat.log2_lt (ne_zero_of_log2 hlog), hlog]
      decide
    have hm' : 2 ^ 52 ≤ m' := hlog' ▸ Nat.log2_self_le (ne_zero_of_log2 hlog')
    calc m * 2 ^ k < 2 ^ 53 * 2 ^ k := Nat.mul_lt_mul_of_pos_right hm (Nat.two_pow_pos k)
      _ = 2 ^ 52 * 2 ^ (k + 1) := by ring
      _ ≤ m' * 2 ^ k' := Nat.mul_le_mul hm' (Nat.pow_le_pow_right (by decide) hk)
  rcases Nat.lt_trichotomy k k' with hk | rfl | hk
  · rw [compare_lt_iff_lt.mpr hk, compare_lt_iff_lt.mpr (hlt hlog hlog' hk)]
    rfl
  · rw [Std.compare_self, Ordering.then]
    exact compare_congr (Nat.mul_lt_mul_right (Nat.two_pow_pos k))
      (Nat.mul_lt_mul_right (Nat.two_pow_pos k))
  · rw [compare_gt_iff_gt.mpr hk, compare_gt_iff_gt.mpr (hlt hlog' hlog hk)]
    rfl

theorem compare_magnitudes {m m' n n' : Nat} {e e' : Int} (hlog : m.log2 = 52)
    (hlog' : m'.log2 = 52) (hlow : -52 ≤ e) (hlow' : -52 ≤ e')
    (hvalue : m * 2 ^ (e + 52).toNat = n * 2 ^ 52)
    (hvalue' : m' * 2 ^ (e' + 52).toNat = n' * 2 ^ 52) :
    (compare e e').then (compare m m') = compare (n : Int) (n' : Int) := by
  have hcompare := @compare_mul_two_pow m m' (e + 52).toNat (e' + 52).toNat hlog hlog'
  rw [hvalue, hvalue'] at hcompare
  have hexponents : compare (e + 52).toNat (e' + 52).toNat = compare e e' :=
    compare_congr (by omega) (by omega)
  have hnumbers : compare (n * 2 ^ 52) (n' * 2 ^ 52) = compare n n' :=
    compare_congr (Nat.mul_lt_mul_right (Nat.two_pow_pos 52))
      (Nat.mul_lt_mul_right (Nat.two_pow_pos 52))
  rw [compare_natCast, ← hnumbers, hcompare, hexponents]

theorem pos_of_magnitude {m n k : Nat} (hpos : 0 < m) (hvalue : m * 2 ^ k = n * 2 ^ 52) :
    0 < n := by
  have hleft : 0 < m * 2 ^ k := Nat.mul_pos hpos (Nat.two_pow_pos k)
  rw [hvalue] at hleft
  exact Nat.pos_of_mul_pos_right hleft

/-- **Doubles that hold integers compare as the integers do.** -/
theorem compare_of_isInteger (hx : IsInteger x a) (hy : IsInteger y b) :
    x.compare y = some (compare a b) := by
  cases hx with
  | zero sign =>
    cases hy with
    | zero sign' => rfl
    | @finite sign' m n e hpos hlog hlow hhigh hvalue =>
      have hn := pos_of_magnitude hpos hvalue
      cases sign' with
      | positive =>
        rw [Sign.apply, compare_lt_iff_lt.mpr (Int.natCast_pos.mpr hn)]
        rfl
      | negative =>
        rw [Sign.apply, compare_gt_iff_gt.mpr (by omega)]
        rfl
  | @finite sign m n e hpos hlog hlow hhigh hvalue =>
    have hn := pos_of_magnitude hpos hvalue
    cases hy with
    | zero sign' =>
      cases sign with
      | positive =>
        rw [Sign.apply, compare_gt_iff_gt.mpr (Int.natCast_pos.mpr hn)]
        rfl
      | negative =>
        rw [Sign.apply, compare_lt_iff_lt.mpr (by omega)]
        rfl
    | @finite sign' m' n' e' hpos' hlog' hlow' hhigh' hvalue' =>
      have hn' := pos_of_magnitude hpos' hvalue'
      have hmagnitudes := compare_magnitudes hlog hlog' hlow hlow' hvalue hvalue'
      cases sign with
      | positive =>
        cases sign' with
        | positive => exact congrArg some hmagnitudes
        | negative =>
          rw [Sign.apply, Sign.apply, compare_gt_iff_gt.mpr (by omega)]
          rfl
      | negative =>
        cases sign' with
        | positive =>
          rw [Sign.apply, Sign.apply, compare_lt_iff_lt.mpr (by omega)]
          rfl
        | negative =>
          rw [Sign.apply, Sign.apply, compare_neg, ← hmagnitudes]
          rfl

/-! ### Integers below 2 ^ 53 -/

theorem shiftOf_le (n : Nat) : shiftOf n ≤ 52 := Nat.sub_le _ _

theorem two_pow_shiftOf (n : Nat) : 2 ^ shiftOf n * 2 ^ (52 - shiftOf n) = 2 ^ 52 := by
  rw [← Nat.pow_add, Nat.add_sub_of_le (shiftOf_le n)]

/-- The mantissa is the number, moved to the left until it has 53 bits. -/
theorem isInteger_shifted (sign : Sign) {n : Nat} (hlt : n < 2 ^ 53)
    (hpos : 0 < n * 2 ^ shiftOf n) :
    IsInteger (.finite sign (n * 2 ^ shiftOf n) (-(shiftOf n : Int)) hpos) (sign.apply n) := by
  have hn : n ≠ 0 := (Nat.pos_of_mul_pos_right hpos).ne'
  have hshift := shiftOf_le n
  have hexponent : (-(shiftOf n : Int) + 52).toNat = 52 - shiftOf n := by omega
  refine .finite sign hpos (log2_shifted hn hlt) (by omega) (by omega) ?_
  rw [hexponent, Nat.mul_assoc, two_pow_shiftOf]

theorem natAbs_apply (sign : Sign) (n : Nat) : (sign.apply (n : Int)).natAbs = n := by
  cases sign with
  | positive => rfl
  | negative => rw [Sign.apply, Int.natAbs_neg, Int.natAbs_natCast]

/-- **The fields of a double that holds a small integer.** -/
theorem IsInteger.fields (h : IsInteger x a) (hlt : a.natAbs < 2 ^ 53) :
    (∃ sign, x = .zero sign ∧ a = 0) ∨
      ∃ sign n, ∃ hpos : 0 < n * 2 ^ shiftOf n, n < 2 ^ 53 ∧ a = sign.apply (n : Int) ∧
        x = .finite sign (n * 2 ^ shiftOf n) (-(shiftOf n : Int)) hpos := by
  cases h with
  | zero sign => exact Or.inl ⟨sign, rfl, rfl⟩
  | @finite sign m n e hpos hlog hlow hhigh hvalue =>
    rw [natAbs_apply] at hlt
    have hn := pos_of_magnitude hpos hvalue
    have hshifted : 0 < n * 2 ^ shiftOf n := Nat.mul_pos hn (Nat.two_pow_pos _)
    -- both sides of the equation have the same number of bits
    have hbits := congrArg Nat.log2 hvalue
    rw [log2_mul_two_pow hpos.ne', log2_mul_two_pow hn.ne', hlog] at hbits
    have hlog' : n.log2 < 53 := (Nat.log2_lt hn.ne').mpr hlt
    have hexponent : e = -(shiftOf n : Int) := by
      rw [shiftOf]
      omega
    have hmantissa : m = n * 2 ^ shiftOf n := by
      have hk : (e + 52).toNat = 52 - shiftOf n := by omega
      rw [hk, ← two_pow_shiftOf n, ← Nat.mul_assoc] at hvalue
      exact Nat.mul_right_cancel (Nat.two_pow_pos _) hvalue
    subst hexponent hmantissa
    exact Or.inr ⟨sign, n, hshifted, hlt, rfl, rfl⟩

/-! ### Rounding an integer below 2 ^ 53 -/

/-- The mantissa may have zeros behind it. -/
theorem isInteger_roundWithAccuracy {n k : Nat} (hn : n ≠ 0) (hlt : n < 2 ^ 53)
    (hk : shiftOf n ≤ k) (sign : Sign) :
    IsInteger (roundWithAccuracy .binary64 sign (n * 2 ^ k) (-(k : Int)) .exact)
      (sign.apply n) := by
  have hpos : 0 < n * 2 ^ shiftOf n := Nat.mul_pos (Nat.pos_of_ne_zero hn) (Nat.two_pow_pos _)
  have hshift := shiftOf_le n
  have hmantissa : n * 2 ^ k = n * 2 ^ shiftOf n * 2 ^ (k - shiftOf n) := by
    rw [Nat.mul_assoc, ← Nat.pow_add, Nat.add_sub_cancel' hk]
  have hexponent : -(k : Int) = -(shiftOf n : Int) - ((k - shiftOf n : Nat) : Int) := by omega
  rw [hmantissa, hexponent,
    roundWithAccuracy_exact (log2_shifted hn hlt) (by omega) hpos sign (k - shiftOf n)]
  exact isInteger_shifted sign hlt hpos

/-- The mantissa may be short, too. -/
theorem isInteger_round {n : Nat} (hn : n ≠ 0) (hlt : n < 2 ^ 53) (k : Nat) (sign : Sign) :
    IsInteger (UnpackedFloat.round .binary64 sign (n * 2 ^ k) (-(k : Int))) (sign.apply n) := by
  have hlog : n.log2 < 53 := (Nat.log2_lt hn).mpr hlt
  have htarget : Format.binary64.targetExponent (totalExponent (n * 2 ^ k) (-(k : Int))) =
      -(shiftOf n : Int) := by
    rw [totalExponent, log2_mul_two_pow hn, targetExponent_eq (by omega), shiftOf]
    omega
  have hshift : (-(k : Int) - -(shiftOf n : Int)).toNat = shiftOf n - k := by omega
  have hmantissa : (n * 2 ^ k) <<< (shiftOf n - k) = n * 2 ^ max k (shiftOf n) := by
    rw [Nat.shiftLeft_eq, Nat.mul_assoc, ← Nat.pow_add]
    congr 2
    omega
  have hexponent : -(k : Int) - ((shiftOf n - k : Nat) : Int) =
      -((max k (shiftOf n) : Nat) : Int) := by omega
  rw [UnpackedFloat.round, htarget, decreaseExponent, hshift, hmantissa, hexponent]
  exact isInteger_roundWithAccuracy hn hlt (Nat.le_max_right k _) sign

theorem isInteger_normalize {a : Int} (hlt : a.natAbs < 2 ^ 53) (k : Nat) (sign : Sign) :
    IsInteger (UnpackedFloat.normalize .binary64 (a * 2 ^ k) (-(k : Int)) sign) a := by
  have hpow : (0 : Int) < 2 ^ k := by positivity
  rw [UnpackedFloat.normalize]
  rcases Int.lt_trichotomy a 0 with ha | rfl | ha
  · obtain ⟨n, rfl⟩ := Int.eq_negSucc_of_lt_zero ha
    have hmagnitude : (-(Int.negSucc n * 2 ^ k)).toNat = (n + 1) * 2 ^ k := by
      rw [Int.neg_mul_eq_neg_mul, Int.neg_negSucc]
      exact_mod_cast Int.toNat_natCast ((n + 1) * 2 ^ k)
    rw [compare_lt_iff_lt.mpr (Int.mul_neg_of_neg_of_pos ha hpow)]
    dsimp only
    rw [hmagnitude]
    exact isInteger_round (Nat.succ_ne_zero n) hlt k .negative
  · rw [Int.zero_mul, Std.compare_self]
    exact .zero sign
  · obtain ⟨n, rfl⟩ := Int.eq_ofNat_of_zero_le ha.le
    have hmagnitude : ((n : Int) * 2 ^ k).toNat = n * 2 ^ k := by
      exact_mod_cast Int.toNat_natCast (n * 2 ^ k)
    rw [compare_gt_iff_gt.mpr (Int.mul_pos ha hpow)]
    dsimp only
    rw [hmagnitude]
    exact isInteger_round (by omega) hlt k .positive

end

end Numeric
end FlowDocs
