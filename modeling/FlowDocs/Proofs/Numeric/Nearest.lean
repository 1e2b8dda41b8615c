/-
  FlowDocs/Proofs/Numeric/Nearest.lean
  ====================================
  **The double of a large integer is the nearest one.**

  From `2 ^ 53` on not every integer is a double: the doubles are the multiples of a power of
  two, the spacing, that grows with the number of bits.  `nearest` is the multiple that an
  integer is rounded to, the even one of two that are equally near.  The double of an integer
  holds its nearest (`isInteger_nearest`), and taking the nearest never turns an order round
  (`nearest_mono`).
-/
import FlowDocs.Proofs.Numeric.ExactArithmetic

namespace FlowDocs

namespace Numeric

open Float.Model (UnpackedFloat Format totalExponent)
open Float.Model.UnpackedFloat

/-! ### Rounding a fraction -/

/-- The natural number nearest to `n / d`, the even one of two that are equally near. -/
def roundHalfEven (n d : Nat) : Nat :=
  if 2 * (n % d) < d then n / d
  else if 2 * (n % d) = d then n / d + n / d % 2
  else n / d + 1

theorem div_le_roundHalfEven (n d : Nat) : n / d ≤ roundHalfEven n d := by
  rw [roundHalfEven]
  split_ifs with hlt heq
  · exact Nat.le_refl _
  · exact Nat.le_add_right _ _
  · exact Nat.le_add_right _ _

theorem roundHalfEven_le (n d : Nat) : roundHalfEven n d ≤ n / d + 1 := by
  rw [roundHalfEven]
  split_ifs with hlt heq
  · exact Nat.le_add_right _ _
  · omega
  · exact Nat.le_refl _

theorem roundHalfEven_mono {n m d : Nat} (h : n ≤ m) :
    roundHalfEven n d ≤ roundHalfEven m d := by
  rcases Nat.lt_or_eq_of_le (Nat.div_le_div_right h : n / d ≤ m / d) with hlt | heq
  · calc roundHalfEven n d ≤ n / d + 1 := roundHalfEven_le n d
      _ ≤ m / d := hlt
      _ ≤ roundHalfEven m d := div_le_roundHalfEven m d
  · -- the quotients agree, so it is the remainders that grow
    have hn := Nat.div_add_mod n d
    have hm := Nat.div_add_mod m d
    rw [heq] at hn
    have hremainder : n % d ≤ m % d := by omega
    rw [roundHalfEven, roundHalfEven, heq]
    split_ifs <;> omega

theorem roundHalfEven_one (n : Nat) : roundHalfEven n 1 = n := by
  rw [roundHalfEven, Nat.mod_one, if_pos (by decide), Nat.div_one]

/-- A common factor does not matter. -/
theorem roundHalfEven_mul (n d : Nat) {c : Nat} (hc : 0 < c) :
    roundHalfEven (n * c) (d * c) = roundHalfEven n d := by
  have hlt : 2 * (n % d * c) < d * c ↔ 2 * (n % d) < d := by
    rw [← Nat.mul_assoc]
    exact Nat.mul_lt_mul_right hc
  have heq : 2 * (n % d * c) = d * c ↔ 2 * (n % d) = d := by
    rw [← Nat.mul_assoc]
    exact Nat.mul_left_inj hc.ne'
  simp only [roundHalfEven, Nat.mul_mod_mul_right, Nat.mul_div_mul_right _ _ hc, hlt, heq]

/-! ### What the bits behind a mantissa mean -/

/-- The mantissa is the quotient, and its two bits tell how the remainder compares to half of
    the divisor. -/
structure Represents (em : ExtendedMantissa) (n d : Nat) : Prop where
  mantissa : em.mantissa = n / d
  roundBit : em.roundBit = true ↔ d ≤ 2 * (n % d)
  stickyBit : em.stickyBit = true ↔ 2 * (n % d) ≠ 0 ∧ 2 * (n % d) ≠ d

theorem represents_exact (n : Nat) : Represents ⟨n, false, false⟩ n 1 where
  mantissa := (Nat.div_one n).symm
  roundBit := by simp [Nat.mod_one]
  stickyBit := by simp [Nat.mod_one]

/-- Shifting by one doubles the divisor. -/
theorem Represents.shiftRightOne {em : ExtendedMantissa} {n d : Nat} (h : Represents em n d)
    (hd : 0 < d) : Represents em.shiftRightOne n (d * 2) := by
  have hmod := @Nat.mod_mul d 2 n
  have hlt := Nat.mod_lt n hd
  constructor
  case mantissa => rw [ExtendedMantissa.shiftRightOne, h.mantissa, Nat.div_div_eq_div_mul]
  case roundBit =>
    rw [ExtendedMantissa.shiftRightOne, h.mantissa, bne_iff_ne, hmod]
    rcases Nat.mod_two_eq_zero_or_one (n / d) with hbit | hbit
    · rw [hbit]
      omega
    · rw [hbit]
      omega
  case stickyBit =>
    rw [ExtendedMantissa.shiftRightOne, Bool.or_eq_true, h.roundBit, h.stickyBit, hmod]
    rcases Nat.mod_two_eq_zero_or_one (n / d) with hbit | hbit
    · rw [hbit]
      omega
    · rw [hbit]
      omega

theorem represents_shiftRight (n k : Nat) :
    Represents ((⟨n, false, false⟩ : ExtendedMantissa) >>> k) n (2 ^ k) := by
  change Represents (Nat.repeat ExtendedMantissa.shiftRightOne k ⟨n, false, false⟩) n (2 ^ k)
  induction k with
  | zero => exact represents_exact n
  | succ k ih => exact ih.shiftRightOne (Nat.two_pow_pos k)

theorem Represents.roundedMantissa {em : ExtendedMantissa} {n d : Nat}
    (h : Represents em n d) (hd : 0 < d) : em.roundedMantissa = roundHalfEven n d := by
  obtain ⟨hmantissa, hround, hsticky⟩ := h
  obtain ⟨m, round, sticky⟩ := em
  dsimp only at hmantissa hround hsticky
  rw [roundHalfEven, ← hmantissa]
  cases round with
  | false =>
    have hlt : 2 * (n % d) < d := by
      rw [← Nat.not_le, ← hround]
      decide
    rw [if_pos hlt]
    cases sticky <;> rfl
  | true =>
    have hle := hround.mp rfl
    cases sticky with
    | false =>
      have heq : 2 * (n % d) = d := by
        by_contra hne
        exact Bool.false_ne_true (hsticky.mpr ⟨by omega, hne⟩)
      rw [if_neg hle.not_gt, if_pos heq]
      rfl
    | true =>
      rw [if_neg hle.not_gt, if_neg (hsticky.mp rfl).2]
      rfl

/-! ### The nearest double -/

/-- The distance of neighbouring doubles around `n`, as far as they are integers. -/
def spacing (n : Nat) : Nat := 2 ^ (n.log2 - 52)

def nearestNat (n : Nat) : Nat := roundHalfEven n (spacing n) * spacing n

/-- The integer that the double of an integer holds. -/
def nearest : Int → Int
  | .ofNat n => nearestNat n
  | .negSucc n => -(nearestNat (n + 1) : Int)

example : nearest 9007199254740993 = 9007199254740992 ∧
    nearest (-9007199254740995) = -9007199254740996 := by decide

theorem nearestNat_of_lt {n : Nat} (h : n < 2 ^ 53) : nearestNat n = n := by
  have hspacing : spacing n = 1 := by
    rcases Nat.eq_zero_or_pos n with rfl | hn
    · rfl
    · have hlog : n.log2 < 53 := (Nat.log2_lt hn.ne').mpr h
      rw [spacing, Nat.sub_eq_zero_of_le (by omega), Nat.pow_zero]
  rw [nearestNat, hspacing, roundHalfEven_one, Nat.mul_one]

/-- Up to `2 ^ 53` every integer is its own nearest. -/
theorem nearest_of_le {n : Int} (h : n.natAbs ≤ 2 ^ 53) : nearest n = n := by
  have hnat : ∀ {k : Nat}, k ≤ 2 ^ 53 → nearestNat k = k := by
    intro k hk
    rcases Nat.lt_or_eq_of_le hk with hlt | rfl
    · exact nearestNat_of_lt hlt
    · decide
  cases n with
  | ofNat n => exact congrArg Int.ofNat (hnat h)
  | negSucc n => exact congrArg (fun k : Nat => -(k : Int)) (hnat h)

section
variable {n : Nat}

theorem pow_log2_eq (hn : 2 ^ 53 ≤ n) : 2 ^ n.log2 = 2 ^ 52 * spacing n := by
  have hlog : 53 ≤ n.log2 := (Nat.le_log2 (by omega)).mpr hn
  rw [spacing, ← Nat.pow_add]
  congr 1
  omega

/-- The rounded mantissa has 53 bits, or is the first number that has more. -/
theorem roundHalfEven_spacing (hn : 2 ^ 53 ≤ n) :
    2 ^ 52 ≤ roundHalfEven n (spacing n) ∧ roundHalfEven n (spacing n) ≤ 2 ^ 53 := by
  have hlow := Nat.log2_self_le (show n ≠ 0 by omega)
  have hhigh := @Nat.lt_log2_self n
  have hspacing : 0 < spacing n := Nat.two_pow_pos _
  rw [Nat.pow_succ, pow_log2_eq hn] at hhigh
  rw [pow_log2_eq hn] at hlow
  have hle : 2 ^ 52 ≤ n / spacing n := (Nat.le_div_iff_mul_le hspacing).mpr hlow
  have hlt : n / spacing n < 2 ^ 53 := by
    rw [Nat.div_lt_iff_lt_mul hspacing]
    omega
  exact ⟨hle.trans (div_le_roundHalfEven _ _), (roundHalfEven_le _ _).trans hlt⟩

/-! ### The double of an integer -/

/-- A mantissa that has run over is moved by one more. -/
theorem shiftToTargetExponent_rounded {r s : Nat} (hlow : 2 ^ 52 ≤ r) (hhigh : r ≤ 2 ^ 53) :
    ∃ m, ∃ e : Int, shiftToTargetExponent .binary64 r s .exact = (⟨m, false, false⟩, e) ∧
      m.log2 = 52 ∧ (s : Int) ≤ e ∧ e ≤ s + 1 ∧ m * 2 ^ (e + 52).toNat = r * 2 ^ s * 2 ^ 52 := by
  rcases Nat.lt_or_eq_of_le hhigh with hlt | rfl
  · have hlog : r.log2 = 52 := (Nat.log2_eq_iff (by omega)).mpr ⟨hlow, hlt⟩
    have hshift := shiftToTargetExponent_exact (e := s) hlog (by omega) 0
    rw [Nat.pow_zero, Nat.mul_one, Int.natCast_zero, Int.sub_zero] at hshift
    have hexponent : ((s : Int) + 52).toNat = s + 52 := by omega
    refine ⟨r, s, hshift, hlog, le_refl _, by omega, ?_⟩
    rw [hexponent, Nat.pow_add, Nat.mul_assoc]
  · have hlog : (2 ^ 52 : Nat).log2 = 52 := Nat.log2_two_pow
    have hshift := shiftToTargetExponent_exact (e := (s : Int) + 1) hlog (by omega) 1
    have hback : (s : Int) + 1 - (1 : Nat) = s := by omega
    have hmantissa : 2 ^ 52 * 2 ^ 1 = 2 ^ 53 := by decide
    rw [hback, hmantissa] at hshift
    have hexponent : ((s : Int) + 1 + 52).toNat = s + 53 := by omega
    refine ⟨2 ^ 52, s + 1, hshift, hlog, by omega, le_refl _, ?_⟩
    rw [hexponent]
    ring

/-- **Rounding arrives at the nearest.** -/
theorem isInteger_roundWithAccuracy_nearest (hn : 2 ^ 53 ≤ n) (hlog : n.log2 ≤ 1022) :
    IsInteger (roundWithAccuracy .binary64 .positive (n * 2 ^ 53) (-53) .exact)
      (nearestNat n) := by
  have hlog' : 53 ≤ n.log2 := (Nat.le_log2 (by omega)).mpr hn
  have htotal : totalExponent (n * 2 ^ 53) (-53) = n.log2 + 1 := by
    rw [totalExponent, log2_mul_two_pow (by omega)]
    omega
  have hfirst : shiftToTargetExponent .binary64 (n * 2 ^ 53) (-53) .exact =
      ((⟨n * 2 ^ 53, false, false⟩ : ExtendedMantissa) >>> (n.log2 + 1),
        ((n.log2 - 52 : Nat) : Int)) := by
    have hshift : ((n.log2 : Int) + 1 - 53 - -53).toNat = n.log2 + 1 := by omega
    rw [shiftToTargetExponent, htotal, targetExponent_eq (by omega), shiftToExponent, hshift]
    exact Prod.ext rfl (by dsimp only; omega)
  have hrounded : ((⟨n * 2 ^ 53, false, false⟩ : ExtendedMantissa) >>> (n.log2 + 1)).roundedMantissa
      = roundHalfEven n (spacing n) := by
    have hdivisor : 2 ^ (n.log2 + 1) = spacing n * 2 ^ 53 := by
      rw [Nat.pow_succ, pow_log2_eq hn]
      ring
    rw [(represents_shiftRight _ _).roundedMantissa (Nat.two_pow_pos _), hdivisor,
      roundHalfEven_mul _ _ (Nat.two_pow_pos 53)]
  obtain ⟨hlow, hhigh⟩ := roundHalfEven_spacing hn
  obtain ⟨m, e, hsecond, hm, he, he', hvalue⟩ :=
    shiftToTargetExponent_rounded (s := n.log2 - 52) hlow hhigh
  have hpos : 0 < m := Nat.pos_of_ne_zero (ne_zero_of_log2 hm)
  rw [roundWithAccuracy, hfirst]
  dsimp only
  rw [hrounded, hsecond, dif_neg hpos.ne']
  exact .finite .positive hpos hm (by omega) (by omega) hvalue

/-- The double of a natural number holds its nearest. -/
theorem isInteger_ofNat_nearest (hlog : n.log2 ≤ 1022) :
    IsInteger (Float.ofNat n).toModel.unpack (nearestNat n) := by
  by_cases hlt : n < 2 ^ 53
  · rw [nearestNat_of_lt hlt]
    exact isInteger_ofNat hlt
  · have hn : 2 ^ 53 ≤ n := Nat.not_lt.mp hlt
    have hofNat : (Float.ofNat n).toModel.unpack =
        unpack .binary64 (pack .binary64 (ofScientific .binary64 n (Int.ofNat 0))) := by
      have hscientific : Float.ofNat n = Float.ofScientific n false 0 := rfl
      rw [hscientific, Float.ofScientific, dif_neg fun h => hlt h.1]
      rfl
    have hmantissa : n <<< Format.binary64.mantissaBits * 10 ^ (Int.ofNat 0).toNat =
        n * 2 ^ 53 := by
      rw [Nat.shiftLeft_eq]
      exact Nat.mul_one _
    rw [hofNat, ofScientific, dif_neg (by omega), if_neg (by decide), if_neg (by simp),
      if_pos (by decide), mul, hmantissa]
    exact isInteger_unpack_pack (isInteger_roundWithAccuracy_nearest hn hlog)

end

/-- **The double of an integer holds the integer's nearest.** -/
theorem isInteger_nearest {n : Int} (hlog : n.natAbs.log2 ≤ 1022) :
    IsInteger (Float.ofInt n).toModel.unpack (nearest n) := by
  cases n with
  | ofNat n => exact isInteger_ofNat_nearest hlog
  | negSucc n => exact isInteger_unpack_pack (isInteger_neg (isInteger_ofNat_nearest hlog))

/-! ### The order of nearest doubles -/

theorem two_pow_le_nearestNat {n : Nat} (hn : 2 ^ 53 ≤ n) : 2 ^ n.log2 ≤ nearestNat n := by
  rw [pow_log2_eq hn, nearestNat]
  exact Nat.mul_le_mul_right _ (roundHalfEven_spacing hn).1

theorem nearestNat_le_two_pow {n : Nat} (hn : 2 ^ 53 ≤ n) : nearestNat n ≤ 2 ^ (n.log2 + 1) := by
  have htop : 2 ^ (n.log2 + 1) = 2 ^ 53 * spacing n := by
    rw [Nat.pow_succ, pow_log2_eq hn]
    ring
  rw [htop, nearestNat]
  exact Nat.mul_le_mul_right _ (roundHalfEven_spacing hn).2

theorem log2_mono {n m : Nat} (hn : n ≠ 0) (h : n ≤ m) : n.log2 ≤ m.log2 := by
  rw [Nat.le_log2 (by omega)]
  exact (Nat.log2_self_le hn).trans h

theorem nearestNat_mono {n m : Nat} (h : n ≤ m) : nearestNat n ≤ nearestNat m := by
  by_cases hm : m < 2 ^ 53
  · rw [nearestNat_of_lt hm, nearestNat_of_lt (by omega)]
    exact h
  rw [Nat.not_lt] at hm
  by_cases hn : n < 2 ^ 53
  · have hlog : 53 ≤ m.log2 := (Nat.le_log2 (by omega)).mpr hm
    rw [nearestNat_of_lt hn]
    calc n ≤ 2 ^ 53 := hn.le
      _ ≤ 2 ^ m.log2 := Nat.pow_le_pow_right (by decide) hlog
      _ ≤ nearestNat m := two_pow_le_nearestNat hm
  rw [Nat.not_lt] at hn
  rcases Nat.lt_or_eq_of_le (log2_mono (by omega) h) with hlt | heq
  · -- a power of two lies between the two
    calc nearestNat n ≤ 2 ^ (n.log2 + 1) := nearestNat_le_two_pow hn
      _ ≤ 2 ^ m.log2 := Nat.pow_le_pow_right (by decide) hlt
      _ ≤ nearestNat m := two_pow_le_nearestNat hm
  · have hspacing : spacing n = spacing m := by rw [spacing, spacing, heq]
    rw [nearestNat, nearestNat, hspacing]
    exact Nat.mul_le_mul_right _ (roundHalfEven_mono h)

/-- **Taking the nearest never turns an order round.** -/
theorem nearest_mono {a b : Int} (h : a ≤ b) : nearest a ≤ nearest b := by
  cases a with
  | ofNat n =>
    cases b with
    | ofNat m => exact Int.ofNat_le.mpr (nearestNat_mono (Int.ofNat_le.mp h))
    | negSucc m =>
      have hlt : Int.negSucc m < Int.ofNat n :=
        (Int.negSucc_lt_zero m).trans_le (Int.natCast_nonneg n)
      exact absurd h hlt.not_ge
  | negSucc n =>
    cases b with
    | ofNat m =>
      calc nearest (.negSucc n) ≤ 0 := Int.neg_nonpos_of_nonneg (Int.natCast_nonneg _)
        _ ≤ nearest (.ofNat m) := Int.natCast_nonneg _
    | negSucc m => exact Int.neg_le_neg (Int.ofNat_le.mpr (nearestNat_mono (by omega)))

end Numeric
end FlowDocs
