/-
  FlowDocs/Proofs/Numeric/Zero.lean
  =================================
  **Only zero is zero.**

  A number counts as zero when its double compares equal to `0.0`.  Of the doubles these
  are the two zeros, since the comparison looks at the exact value; of the integers it is
  zero alone, since rounding an integer other than zero leaves a mantissa of 53 bits or
  runs over to an infinity.
-/
import FlowDocs.Proofs.Numeric.Decimals

namespace FlowDocs

/-- A zero in any of its spellings. -/
def Number.IsZero : Number → Prop
  | .integer n => n = 0
  | .double x => x = 0.0 ∨ x = -0.0

namespace Numeric

open Float.Model (UnpackedFloat Format totalExponent)
open Float.Model.UnpackedFloat

/-! ### Doubles -/

theorem fields_of_unpack_zero {bits : BitVec 64} {sign : Sign}
    (h : unpack .binary64 bits = .zero sign) :
    @unpackExponent .binary64 bits = 0#11 ∧ @unpackMantissa .binary64 bits = 0#52 := by
  rw [unpack] at h
  dsimp only at h
  split_ifs at h with hones hmantissa hexponent hmantissa
  exact ⟨hexponent, hmantissa⟩

/-- In a zero nothing but the sign can be set. -/
theorem toNat_of_unpack_zero {bits : BitVec 64} {sign : Sign}
    (h : unpack .binary64 bits = .zero sign) : bits.toNat = 0 ∨ bits.toNat = 2 ^ 63 := by
  obtain ⟨hexponent, hmantissa⟩ := fields_of_unpack_zero h
  have hexponent := congrArg BitVec.toNat hexponent
  have hmantissa := congrArg BitVec.toNat hmantissa
  have hlt : bits.toNat < 2 ^ 64 := bits.isLt
  simp [unpackExponent, unpackMantissa] at hexponent hmantissa
  rw [Nat.shiftRight_eq_div_pow] at hexponent
  omega

theorem eq_of_toBits {x y : Float} (h : x.toModel.toBits = y.toModel.toBits) : x = y := by
  obtain ⟨⟨bits, hbits⟩⟩ := x
  obtain ⟨⟨bits', hbits'⟩⟩ := y
  obtain rfl : bits = bits' := h
  rfl

theorem eq_zero_of_unpack {x : Float} {sign : Sign} (h : x.toModel.unpack = .zero sign) :
    x = 0.0 ∨ x = -0.0 := by
  have hzero : (0.0 : Float).toModel.toBits.toNat = 0 := rfl
  have hnegative : (-0.0 : Float).toModel.toBits.toNat = 2 ^ 63 := rfl
  rcases toNat_of_unpack_zero h with hbits | hbits
  · exact Or.inl (eq_of_toBits (UInt64.toNat_inj.mp (hbits.trans hzero.symm)))
  · exact Or.inr (eq_of_toBits (UInt64.toNat_inj.mp (hbits.trans hnegative.symm)))

theorem beq_zero_iff (x : Float) :
    (x == 0.0) = true ↔ ∃ sign, x.toModel.unpack = .zero sign := by
  have hbeq : (x == 0.0) = (x.toModel.unpack.compare (.zero .positive) == some .eq) := rfl
  rw [hbeq]
  cases x.toModel.unpack with
  | infinity sign => cases sign <;> simp [UnpackedFloat.compare]
  | notANumber => simp [UnpackedFloat.compare]
  | zero sign => simp [UnpackedFloat.compare]
  | finite sign m e hpos => cases sign <;> simp [UnpackedFloat.compare]

/-! ### Integers

A mantissa of 53 bits or more, away from the bottom of the format, is rounded to one of
53 bits: the bits that are shifted out can add one, and then a bit more is shifted out. -/

/-- An infinity, or a finite number with a mantissa of 53 bits that can be packed. -/
def IsLong : UnpackedFloat → Prop
  | .infinity _ => True
  | .notANumber => False
  | .zero _ => False
  | .finite _ m e _ => m.log2 = 52 ∧ -1074 ≤ e

theorem mantissa_shiftRight (em : ExtendedMantissa) (k : Nat) :
    (em >>> k).mantissa = em.mantissa / 2 ^ k := by
  change (Nat.repeat ExtendedMantissa.shiftRightOne k em).mantissa = em.mantissa / 2 ^ k
  induction k with
  | zero => rw [Nat.repeat, Nat.pow_zero, Nat.div_one]
  | succ k ih =>
    rw [Nat.repeat, ExtendedMantissa.shiftRightOne, ih, Nat.div_div_eq_div_mul, Nat.pow_succ]

theorem le_roundedMantissa (em : ExtendedMantissa) : em.mantissa ≤ em.roundedMantissa := by
  rw [ExtendedMantissa.roundedMantissa]
  cases em.accuracy with
  | exact => exact Nat.le_refl _
  | inexact order => cases order <;> simp [Accuracy.roundToNearestEven]

theorem log2_div_two_pow {m k : Nat} (hk : k ≤ m.log2) (hm : m ≠ 0) :
    (m / 2 ^ k).log2 = m.log2 - k := by
  have hlow := Nat.log2_self_le hm
  have hhigh := @Nat.lt_log2_self m
  have hsplit : 2 ^ m.log2 = 2 ^ (m.log2 - k) * 2 ^ k := by
    rw [← Nat.pow_add, Nat.sub_add_cancel hk]
  have hsplit' : 2 ^ (m.log2 + 1) = 2 ^ (m.log2 - k + 1) * 2 ^ k := by
    rw [← Nat.pow_add]
    congr 1
    omega
  have hge : 2 ^ (m.log2 - k) ≤ m / 2 ^ k := by
    rw [Nat.le_div_iff_mul_le (Nat.two_pow_pos k), ← hsplit]
    exact hlow
  have hlt : m / 2 ^ k < 2 ^ (m.log2 - k + 1) := by
    rw [Nat.div_lt_iff_lt_mul (Nat.two_pow_pos k), ← hsplit']
    exact hhigh
  have hne : m / 2 ^ k ≠ 0 := (Nat.lt_of_lt_of_le (Nat.two_pow_pos _) hge).ne'
  exact (Nat.log2_eq_iff hne).mpr ⟨hge, hlt⟩

theorem ne_zero_of_le_log2 {m : Nat} (h : 52 ≤ m.log2) : m ≠ 0 := by
  rintro rfl
  rw [Nat.log2_zero] at h
  omega

/-- What does not fit into 53 bits is shifted out. -/
theorem shiftToTargetExponent_long {m : Nat} {e : Int} (hlong : 52 ≤ m.log2)
    (hlow : -1021 ≤ totalExponent m e) :
    (shiftToTargetExponent .binary64 m e .exact).1.mantissa.log2 = 52 ∧
      (shiftToTargetExponent .binary64 m e .exact).2 = totalExponent m e - 53 := by
  have htotal : totalExponent m e = m.log2 + 1 + e := rfl
  have hshift : (totalExponent m e - 53 - e).toNat = m.log2 - 52 := by omega
  rw [shiftToTargetExponent, targetExponent_eq hlow, shiftToExponent, hshift]
  constructor
  · rw [mantissa_shiftRight, ExtendedMantissa.ofMantissaAndAccuracy,
      log2_div_two_pow (Nat.sub_le _ _) (ne_zero_of_le_log2 hlong)]
    omega
  · dsimp only
    omega

theorem isLong_roundWithAccuracy {m : Nat} {e : Int} (hlong : 52 ≤ m.log2)
    (hlow : -1021 ≤ totalExponent m e) (sign : Sign) :
    IsLong (roundWithAccuracy .binary64 sign m e .exact) := by
  obtain ⟨hlog, hexponent⟩ := shiftToTargetExponent_long hlong hlow
  rw [roundWithAccuracy]
  generalize shiftToTargetExponent .binary64 m e .exact = first at hlog hexponent
  obtain ⟨em, e₁⟩ := first
  dsimp only at hlog hexponent ⊢
  have hlong₁ : 52 ≤ em.roundedMantissa.log2 := by
    have hle := le_roundedMantissa em
    have hem : em.mantissa ≠ 0 := ne_zero_of_log2 hlog
    rw [Nat.le_log2 (by omega), ← hlog]
    exact (Nat.log2_self_le hem).trans hle
  have htotal₁ : totalExponent em.roundedMantissa e₁ = em.roundedMantissa.log2 + 1 + e₁ := rfl
  have hlow₁ : -1021 ≤ totalExponent em.roundedMantissa e₁ := by omega
  obtain ⟨hlog₂, hexponent₂⟩ := shiftToTargetExponent_long hlong₁ hlow₁
  rw [dif_neg (ne_zero_of_log2 hlog₂)]
  exact ⟨hlog₂, by omega⟩

/-- A long number is packed as it is, or as an infinity. -/
theorem isLong_unpack_pack {x : UnpackedFloat} (h : IsLong x) :
    IsLong (unpack .binary64 (pack .binary64 x)) := by
  have hinfinity : ∀ sign, unpack .binary64 (packedInfinity .binary64 sign) = .infinity sign := by
    intro sign
    cases sign <;> rfl
  cases x with
  | infinity sign =>
    rw [pack, hinfinity]
    trivial
  | notANumber => exact absurd h id
  | zero sign => exact absurd h id
  | finite sign m e hpos =>
    obtain ⟨hlog, hlow⟩ := h
    by_cases hhigh : e ≤ 971
    · rw [unpack_pack_normal hlog hlow hhigh hpos sign]
      exact ⟨hlog, hlow⟩
    · have hbias : Format.binary64.exponentBias = 1023 := rfl
      rw [pack, hbias, if_pos (by simp; omega), hinfinity]
      trivial

theorem isLong_neg {x : UnpackedFloat} (h : IsLong x) : IsLong x.neg := by
  cases x with
  | infinity sign => trivial
  | notANumber => exact h
  | zero sign => exact h
  | finite sign m e hpos => exact h

/-- A natural number other than zero is long as a double. -/
theorem isLong_ofNat {n : Nat} (hn : n ≠ 0) : IsLong (Float.ofNat n).toModel.unpack := by
  have hofNat : Float.ofNat n = Float.ofScientific n false 0 := rfl
  rw [hofNat, Float.ofScientific]
  by_cases hlt : n < 2 ^ 53
  · have hpos : 0 < n * 2 ^ shiftOf n :=
      Nat.mul_pos (Nat.pos_of_ne_zero hn) (Nat.two_pow_pos _)
    have hlog : (n * 2 ^ shiftOf n * 2 ^ 52).log2 = 104 := by
      rw [log2_mul_two_pow hpos.ne', log2_shifted hn hlt]
    have hshift : shiftOf n ≤ 52 := Nat.sub_le _ _
    rw [dif_pos ⟨hlt, Nat.zero_le 22⟩]
    change IsLong (unpack .binary64 (pack .binary64 (mul .binary64
      n.toUInt64.toFloat.toModel.unpack
      (Float.exactlyRepresentablePowersOfTen[0]).toModel.unpack)))
    rw [unpack_toFloat hn hlt hpos, unpack_one, mul]
    exact isLong_unpack_pack
      (isLong_roundWithAccuracy (by omega) (by rw [totalExponent, hlog]; omega) _)
  · rw [dif_neg (fun h => hlt h.1)]
    change IsLong (unpack .binary64 (pack .binary64 (ofScientific .binary64 n (Int.ofNat 0))))
    rw [ofScientific, dif_neg hn, if_neg (by decide), if_neg (by simp), if_pos (by decide), mul]
    generalize hm : n <<< Format.binary64.mantissaBits * 10 ^ (Int.ofNat 0).toNat = m
    generalize he : -(Format.binary64.mantissaBits : Int) + 0 = e
    have hlog : m.log2 = n.log2 + 53 := by
      rw [← hm, Nat.shiftLeft_eq, Int.ofNat_eq_natCast, Int.toNat_natCast, Nat.pow_zero, Nat.mul_one]
      exact log2_mul_two_pow hn 53
    have hexponent : e = -53 := he.symm
    exact isLong_unpack_pack
      (isLong_roundWithAccuracy (by omega) (by rw [totalExponent]; omega) _)

theorem isLong_ofInt {n : Int} (hn : n ≠ 0) : IsLong (Float.ofInt n).toModel.unpack := by
  cases n with
  | ofNat n => exact isLong_ofNat fun h => hn (congrArg Int.ofNat h)
  | negSucc n => exact isLong_unpack_pack (isLong_neg (isLong_ofNat (Nat.succ_ne_zero n)))

/-- **A number whose double compares equal to zero is zero.** -/
theorem toFloat_beq_zero_iff (n : Number) : (n.toFloat == 0.0) = true ↔ n.IsZero := by
  cases n with
  | integer n =>
    constructor
    · intro h
      obtain ⟨sign, hsign⟩ := (beq_zero_iff _).mp h
      by_contra hn
      have hlong := isLong_ofInt hn
      rw [Number.toFloat] at hsign
      rw [hsign] at hlong
      exact hlong
    · intro h
      rw [show n = 0 from h]
      decide
  | double x =>
    constructor
    · intro h
      obtain ⟨sign, hsign⟩ := (beq_zero_iff _).mp h
      exact eq_zero_of_unpack hsign
    · intro h
      rcases h with rfl | rfl
      · decide
      · decide

end Numeric
end FlowDocs
