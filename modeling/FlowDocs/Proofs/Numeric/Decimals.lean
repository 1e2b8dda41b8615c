/-
  FlowDocs/Proofs/Numeric/Decimals.lean
  =====================================
  **The doubles of decimals.**

  A decimal without a sign is turned into a double by dividing a natural number by a
  power of ten.  Two facts about it carry everything the lexemes of numbers need: the
  double is not negative, because no step on the way makes it so, and it is the number
  itself for a natural number below `2 ^ 53`, because no step on the way rounds.

  Both are read off the fields of a double.  `isNegative` is the field of the sign, and
  a mantissa of exactly 53 bits survives packing and unpacking as it is.
-/
import FlowDocs.Json.Number
import Mathlib

namespace FlowDocs

/-- The number is finite and not below zero. -/
def Number.FiniteNonneg : Number → Prop
  | .integer n => 0 ≤ n
  | .double x => x.isFinite = true ∧ 0 ≤ x

namespace Numeric

open Float.Model (UnpackedFloat Format totalExponent)
open Float.Model.UnpackedFloat

/-! ### The sign -/

/-- The sign of an unpacked double is negative. -/
def isNegative : UnpackedFloat → Bool
  | .infinity sign => sign == .negative
  | .notANumber => false
  | .zero sign => sign == .negative
  | .finite sign _ _ _ => sign == .negative

theorem unpackSign_packComponents {spec : Format} (sign : Sign)
    (exponent : BitVec spec.exponentBits) (mantissa : BitVec spec.mantissaBitsWithoutImplicit) :
    unpackSign (packComponents spec sign exponent mantissa) = sign.toBitVec := by
  ext i hi
  obtain rfl : i = 0 := Nat.lt_one_iff.mp hi
  simp [unpackSign, packComponents, BitVec.getLsbD_append, ← BitVec.getLsbD_eq_getElem]

theorem isNegative_unpack_packComponents {spec : Format} {sign : Sign}
    (exponent : BitVec spec.exponentBits) (mantissa : BitVec spec.mantissaBitsWithoutImplicit)
    (h : (sign == .negative) = false) :
    isNegative (unpack spec (packComponents spec sign exponent mantissa)) = false := by
  have hsign : Sign.ofBitVec sign.toBitVec = sign := by
    cases sign <;> rfl
  rw [unpack, unpackSign_packComponents, hsign]
  split
  · split
    · exact h
    · rfl
  · split
    · split
      · exact h
      · exact h
    · exact h

theorem isNegative_unpack_pack {spec : Format} {x : UnpackedFloat} (h : isNegative x = false) :
    isNegative (unpack spec (pack spec x)) = false := by
  cases x with
  | infinity sign => exact isNegative_unpack_packComponents _ _ h
  | notANumber => exact isNegative_unpack_packComponents _ _ rfl
  | zero sign => exact isNegative_unpack_packComponents _ _ h
  | finite sign mantissa exponent hpos =>
    rw [pack]
    split
    · exact isNegative_unpack_packComponents _ _ h
    · split
      · exact isNegative_unpack_packComponents _ _ h
      · exact isNegative_unpack_packComponents _ _ h

theorem isNegative_roundWithAccuracy {spec : Format} {sign : Sign}
    (h : (sign == .negative) = false) (mantissa : Nat) (exponent : Int) (accuracy : Accuracy) :
    isNegative (roundWithAccuracy spec sign mantissa exponent accuracy) = false := by
  rw [roundWithAccuracy]
  dsimp only
  split
  · exact h
  · exact h

theorem isNegative_ofNat (spec : Format) (n : Nat) : isNegative (ofNat spec n) = false := by
  rw [ofNat, ofInt, UnpackedFloat.normalize]
  split
  · rename_i hcompare
    rw [compare_lt_iff_lt] at hcompare
    omega
  · rfl
  · exact isNegative_roundWithAccuracy rfl _ _ _

theorem cases_of_not_negative {x : UnpackedFloat} (h : isNegative x = false) :
    x = .infinity .positive ∨ x = .notANumber ∨ x = .zero .positive ∨
      ∃ m e hpos, x = .finite .positive m e hpos := by
  have hsign : ∀ {sign : Sign}, (sign == .negative) = false → sign = .positive := by
    intro sign hsign
    cases sign with
    | negative => cases hsign
    | positive => rfl
  cases x with
  | infinity sign => exact Or.inl (congrArg _ (hsign h))
  | notANumber => exact Or.inr (Or.inl rfl)
  | zero sign => exact Or.inr (Or.inr (Or.inl (congrArg _ (hsign h))))
  | finite sign m e hpos =>
    obtain rfl := hsign h
    exact Or.inr (Or.inr (Or.inr ⟨m, e, hpos, rfl⟩))

/-- A quotient is negative only if one of the two numbers is. -/
theorem isNegative_div {spec : Format} {x y : UnpackedFloat} (hx : isNegative x = false)
    (hy : isNegative y = false) : isNegative (div spec x y) = false := by
  rcases cases_of_not_negative hx with rfl | rfl | rfl | ⟨m, e, hpos, rfl⟩
  · rcases cases_of_not_negative hy with rfl | rfl | rfl | ⟨m', e', hpos', rfl⟩ <;> rfl
  · rfl
  · rcases cases_of_not_negative hy with rfl | rfl | rfl | ⟨m', e', hpos', rfl⟩ <;> rfl
  · rcases cases_of_not_negative hy with rfl | rfl | rfl | ⟨m', e', hpos', rfl⟩
    · rfl
    · rfl
    · rfl
    · exact isNegative_roundWithAccuracy rfl _ _ _

theorem isNegative_mul {spec : Format} {x y : UnpackedFloat} (hx : isNegative x = false)
    (hy : isNegative y = false) : isNegative (mul spec x y) = false := by
  rcases cases_of_not_negative hx with rfl | rfl | rfl | ⟨m, e, hpos, rfl⟩
  · rcases cases_of_not_negative hy with rfl | rfl | rfl | ⟨m', e', hpos', rfl⟩ <;> rfl
  · rfl
  · rcases cases_of_not_negative hy with rfl | rfl | rfl | ⟨m', e', hpos', rfl⟩ <;> rfl
  · rcases cases_of_not_negative hy with rfl | rfl | rfl | ⟨m', e', hpos', rfl⟩
    · rfl
    · rfl
    · rfl
    · exact isNegative_roundWithAccuracy rfl _ _ _

theorem isNegative_ofScientific (spec : Format) (m : Nat) (e : Int) :
    isNegative (ofScientific spec m e) = false := by
  rw [ofScientific]
  split
  · rfl
  · split
    · rfl
    · split
      · rfl
      · split
        · exact isNegative_mul rfl rfl
        · exact isNegative_div rfl rfl

/-- **A decimal without a sign is not negative.** -/
theorem isNegative_decimal (m places : Nat) :
    isNegative (Float.ofScientific m true places).toModel.unpack = false := by
  rw [Float.ofScientific]
  split
  · rename_i h
    have hpower : ∀ i : Fin 23,
        isNegative (Float.exactlyRepresentablePowersOfTen[i]).toModel.unpack = false := by
      decide
    exact isNegative_unpack_pack
      (isNegative_div (isNegative_unpack_pack (isNegative_ofNat _ _)) (hpower ⟨places, by omega⟩))
  · exact isNegative_unpack_pack (isNegative_ofScientific _ _ _)

theorem zero_le_iff (x : Float) :
    0 ≤ x ↔ (UnpackedFloat.zero .positive).le x.toModel.unpack = true :=
  decide_eq_true_iff

theorem isSome_dyadic? (x : Float) : (dyadic? x).isSome = x.isFinite := by
  have hfinite : x.isFinite = x.toModel.unpack.isFinite := rfl
  rw [hfinite, dyadic?]
  cases x.toModel.unpack <;> rfl

theorem dyadic?_of_not_negative {x : Float} {d : Dyadic}
    (hsign : isNegative x.toModel.unpack = false) (h : dyadic? x = some d) :
    d.negative = false ∧ 0 ≤ x := by
  rw [zero_le_iff]
  rw [dyadic?] at h
  rcases cases_of_not_negative hsign with heq | heq | heq | ⟨m, e, hpos, heq⟩
  · rw [heq] at h
    cases h
  · rw [heq] at h
    cases h
  · rw [heq] at h ⊢
    cases h
    exact ⟨rfl, rfl⟩
  · rw [heq] at h ⊢
    cases h
    exact ⟨rfl, rfl⟩

theorem Dyadic.integer?_nonneg {d : Dyadic} {k : Int} (hsign : d.negative = false)
    (h : d.integer? = some k) : 0 ≤ k := by
  rw [Dyadic.integer?, hsign] at h
  obtain ⟨n, -, rfl⟩ := Option.map_eq_some_iff.mp h
  exact Int.natCast_nonneg n

theorem ofFloat?_eq_none_iff (x : Float) : Number.ofFloat? x = none ↔ x.isFinite = false := by
  rw [Number.ofFloat?, ← isSome_dyadic?, integer?]
  cases hd : dyadic? x with
  | none => simp
  | some d =>
    rw [Option.bind_some]
    split
    · split <;> simp
    · simp

/-- A double that is not negative is read as a number that is finite and not negative. -/
theorem nonneg_of_ofFloat? {x : Float} {n : Number} (hsign : isNegative x.toModel.unpack = false)
    (h : Number.ofFloat? x = some n) : n.FiniteNonneg := by
  have hfinite : x.isFinite = true := by
    rw [← Bool.not_eq_false, ← ofFloat?_eq_none_iff, h]
    exact Option.some_ne_none n
  obtain ⟨d, hd⟩ := Option.isSome_iff_exists.mp ((isSome_dyadic? x).trans hfinite)
  obtain ⟨hnegative, hx⟩ := dyadic?_of_not_negative hsign hd
  rw [Number.ofFloat?, integer?, hd, Option.bind_some] at h
  cases hk : d.integer? with
  | none =>
    rw [hk] at h
    obtain ⟨-, hn⟩ := Option.ite_none_right_eq_some.mp h
    obtain rfl := Option.some.inj hn
    exact ⟨hfinite, hx⟩
  | some k =>
    rw [hk] at h
    dsimp only at h
    split at h
    · cases h
      exact Dyadic.integer?_nonneg hnegative hk
    · cases h
      exact ⟨hfinite, hx⟩

/-! ### Natural numbers

A natural number below `2 ^ 53` is a mantissa of 53 bits once it has been moved to the
left. -/

theorem log2_mul_two_pow {m : Nat} (hm : m ≠ 0) (k : Nat) : (m * 2 ^ k).log2 = m.log2 + k := by
  induction k with
  | zero => simp
  | succ k ih =>
    have hne : m * 2 ^ k ≠ 0 := Nat.mul_ne_zero hm (Nat.two_pow_pos k).ne'
    rw [Nat.pow_succ, ← Nat.mul_assoc, Nat.mul_comm _ 2, Nat.log2_two_mul hne, ih, Nat.add_assoc]

theorem shiftRight_exact (m k : Nat) :
    (⟨m * 2 ^ k, false, false⟩ : ExtendedMantissa) >>> k = ⟨m, false, false⟩ := by
  change Nat.repeat ExtendedMantissa.shiftRightOne k ⟨m * 2 ^ k, false, false⟩ = ⟨m, false, false⟩
  induction k generalizing m with
  | zero => simp [Nat.repeat]
  | succ k ih =>
    have hpow : m * 2 ^ (k + 1) = 2 * m * 2 ^ k := by ring
    rw [Nat.repeat, hpow, ih]
    simp [ExtendedMantissa.shiftRightOne]

/-- Away from the bottom of the format a number is given a mantissa of 53 bits. -/
theorem targetExponent_eq {total : Int} (h : -1021 ≤ total) :
    Format.binary64.targetExponent total = total - 53 := by
  rw [Format.targetExponent, Format.mantissaBits, Format.minExponent, Format.mantissaBits]
  norm_num
  omega

theorem ne_zero_of_log2 {m : Nat} (hlog : m.log2 = 52) : m ≠ 0 := by
  rintro rfl
  cases hlog

theorem shiftToTargetExponent_exact {m : Nat} {e : Int} (hlog : m.log2 = 52) (he : -1074 ≤ e)
    (k : Nat) :
    shiftToTargetExponent .binary64 (m * 2 ^ k) (e - k) .exact = (⟨m, false, false⟩, e) := by
  have htotal : totalExponent (m * 2 ^ k) (e - k) = e + 53 := by
    rw [totalExponent, log2_mul_two_pow (ne_zero_of_log2 hlog), hlog]
    omega
  have htarget : Format.binary64.targetExponent (totalExponent (m * 2 ^ k) (e - k)) = e := by
    rw [htotal, targetExponent_eq (by omega)]
    omega
  have hshift : (e - (e - k)).toNat = k := by omega
  rw [shiftToTargetExponent, htarget, shiftToExponent, hshift]
  exact Prod.ext (shiftRight_exact m k) (by simp)

/-- A mantissa of 53 bits is not rounded, nor are zeros behind it. -/
theorem roundWithAccuracy_exact {m : Nat} {e : Int} (hlog : m.log2 = 52) (he : -1074 ≤ e)
    (hpos : 0 < m) (sign : Sign) (k : Nat) :
    roundWithAccuracy .binary64 sign (m * 2 ^ k) (e - k) .exact = .finite sign m e hpos := by
  have hagain := shiftToTargetExponent_exact hlog he 0
  rw [Nat.pow_zero, Nat.mul_one, Int.natCast_zero, Int.sub_zero] at hagain
  -- the first shift drops zeros only, so nothing is rounded and the second does not move
  rw [roundWithAccuracy, shiftToTargetExponent_exact hlog he k]
  change (match shiftToTargetExponent .binary64 m e .exact with
    | (final, exponent) => if h : final.mantissa = 0 then UnpackedFloat.zero sign
        else .finite sign final.mantissa exponent (Nat.pos_of_ne_zero h)) = _
  rw [hagain]
  exact dif_neg hpos.ne'

theorem one_append_mantissa {m : Nat} (hlog : m.log2 = 52) :
    (1#1 ++ BitVec.ofNat 52 m).toNat = m := by
  have hm := ne_zero_of_log2 hlog
  have hlow : 2 ^ 52 ≤ m := hlog ▸ Nat.log2_self_le hm
  have hhigh : m < 2 ^ 53 := by
    rw [← Nat.log2_lt hm, hlog]
    decide
  rw [BitVec.toNat_append, BitVec.toNat_ofNat, BitVec.toNat_ofNat,
    ← Nat.shiftLeft_add_eq_or_of_lt (Nat.mod_lt _ (Nat.two_pow_pos 52)), Nat.shiftLeft_eq]
  omega

theorem unpack_packComponents_normal {m : Nat} (hlog : m.log2 = 52) {exponent : BitVec 11}
    (hones : exponent ≠ -1#11) (hzero : exponent ≠ 0#11) (hpos : 0 < m) (sign : Sign) :
    unpack .binary64 (packComponents .binary64 sign exponent (BitVec.ofNat 52 m)) =
      .finite sign m ((exponent.toNat : Int) - 1075) hpos := by
  have hsign : Sign.ofBitVec
      (unpackSign (packComponents .binary64 sign exponent (BitVec.ofNat 52 m))) = sign := by
    rw [unpackSign_packComponents]
    cases sign <;> rfl
  simp only [unpack, hsign, unpackExponent_packComponents, unpackMantissa_packComponents]
  rw [if_neg hones, if_neg hzero]
  simp only [one_append_mantissa hlog]
  rfl

/-- A mantissa of 53 bits is packed and unpacked as it is. -/
theorem unpack_pack_normal {m : Nat} {e : Int} (hlog : m.log2 = 52) (hlow : -1074 ≤ e)
    (hhigh : e ≤ 971) (hpos : 0 < m) (sign : Sign) :
    unpack .binary64 (pack .binary64 (.finite sign m e hpos)) = .finite sign m e hpos := by
  have hbias : Format.binary64.exponentBias = 1023 := rfl
  have hbits : Format.binary64.mantissaBits = 53 := rfl
  rw [pack, hlog, hbits, hbias, if_neg (by simp; omega), if_pos rfl]
  set exponent := (e + (1023 : Nat) + (52 : Nat)).toNat with hexponent
  have hnat : (BitVec.ofNat 11 exponent).toNat = exponent := by
    rw [BitVec.toNat_ofNat]
    omega
  -- neither of the two exponents that are kept for zeros and for infinities
  have hones : BitVec.ofNat 11 exponent ≠ -1#11 := by
    intro h
    have h := congrArg BitVec.toNat h
    rw [hnat] at h
    change exponent = 2047 at h
    omega
  have hzero : BitVec.ofNat 11 exponent ≠ 0#11 := by
    intro h
    have h := congrArg BitVec.toNat h
    rw [hnat] at h
    change exponent = 0 at h
    omega
  rw [unpack_packComponents_normal hlog hones hzero hpos, hnat]
  congr 1
  omega

/-- How far a natural number below 2 ^ 53 is moved to fill the mantissa. -/
def shiftOf (n : Nat) : Nat := 52 - n.log2

theorem log2_shifted {n : Nat} (hn : n ≠ 0) (hlt : n < 2 ^ 53) : (n * 2 ^ shiftOf n).log2 = 52 := by
  have hlog : n.log2 < 53 := (Nat.log2_lt hn).mpr hlt
  rw [log2_mul_two_pow hn, shiftOf]
  omega

theorem ofNat_exact {n : Nat} (hn : n ≠ 0) (hlt : n < 2 ^ 53) (hpos : 0 < n * 2 ^ shiftOf n) :
    ofNat .binary64 n = .finite .positive (n * 2 ^ shiftOf n) (-(shiftOf n : Int)) hpos := by
  have hlog : n.log2 < 53 := (Nat.log2_lt hn).mpr hlt
  have hgt : compare (n : Int) 0 = .gt := by
    rw [compare_gt_iff_gt]
    omega
  have htarget : Format.binary64.targetExponent (totalExponent n 0) = -(shiftOf n : Int) := by
    rw [totalExponent, targetExponent_eq (by omega), shiftOf]
    omega
  have hlow : -1074 ≤ -(shiftOf n : Int) := by
    rw [shiftOf]
    omega
  have hround := roundWithAccuracy_exact (log2_shifted hn hlt) hlow hpos .positive 0
  rw [ofNat, ofInt, UnpackedFloat.normalize, hgt]
  dsimp only
  rw [UnpackedFloat.round, Int.toNat_natCast, htarget, decreaseExponent, zero_sub, neg_neg,
    Int.toNat_natCast, Nat.shiftLeft_eq, zero_sub]
  rw [Nat.pow_zero, Nat.mul_one, Int.natCast_zero, Int.sub_zero] at hround
  exact hround

/-- Dividing a mantissa of 53 bits by one puts a zero behind it, and rounding takes it away. -/
theorem div_one_exact {m : Nat} {e : Int} (hlog : m.log2 = 52) (he : -1074 < e) (hpos : 0 < m) :
    div .binary64 (.finite .positive m e hpos)
        (.finite .positive (2 ^ 52) (-52) (Nat.two_pow_pos 52)) =
      .finite .positive m e hpos := by
  have hcore : divCore .binary64 m e (2 ^ 52) (-52) = (m * 2 ^ 1, e - (1 : Nat), .exact) := by
    have htarget : min (e - -52) (Format.binary64.targetExponent
        (totalExponent m e - totalExponent (2 ^ 52) (-52))) = e - 1 := by
      rw [totalExponent, totalExponent, hlog, Nat.log2_two_pow, targetExponent_eq (by omega)]
      omega
    have hshift : (e - -52 - (e - 1)).toNat = 53 := by omega
    have hmantissa : m <<< 53 = m * 2 ^ 1 * 2 ^ 52 := by
      rw [Nat.shiftLeft_eq]
      ring
    rw [divCore, htarget, hshift, hmantissa, Nat.mul_div_cancel _ (Nat.two_pow_pos 52),
      Nat.mul_mod_left]
    rfl
  rw [div, hcore]
  exact roundWithAccuracy_exact hlog he.le hpos .positive 1

theorem Dyadic.integer?_shifted (n s : Nat) :
    Dyadic.integer? ⟨false, n * 2 ^ s, -(s : Int)⟩ = some (n : Int) := by
  have hmagnitude : (if 0 ≤ -(s : Int) then some ((n * 2 ^ s) <<< (-(s : Int)).toNat)
      else if n * 2 ^ s % (1 <<< s) = 0 then some (n * 2 ^ s / (1 <<< s)) else none) = some n := by
    rw [Nat.shiftLeft_eq, Nat.shiftLeft_eq, Nat.one_mul, Nat.mul_mod_left, if_pos rfl,
      Nat.mul_div_cancel _ (Nat.two_pow_pos s)]
    split
    · obtain rfl : s = 0 := by omega
      simp
    · rfl
  rw [Dyadic.integer?]
  dsimp only
  rw [neg_neg, Int.toNat_natCast, hmagnitude]
  rfl

theorem unpack_toFloat {n : Nat} (hn : n ≠ 0) (hlt : n < 2 ^ 53) (hpos : 0 < n * 2 ^ shiftOf n) :
    n.toUInt64.toFloat.toModel.unpack =
      .finite .positive (n * 2 ^ shiftOf n) (-(shiftOf n : Int)) hpos := by
  have hlow : -1074 ≤ -(shiftOf n : Int) := by
    rw [shiftOf]
    omega
  have hword : n.toUInt64.toNat = n := by
    rw [Nat.toUInt64, UInt64.toNat_ofNat']
    omega
  change unpack .binary64 (pack .binary64 (ofNat .binary64 n.toUInt64.toNat)) = _
  rw [hword, ofNat_exact hn hlt hpos,
    unpack_pack_normal (log2_shifted hn hlt) hlow (by omega) hpos]

theorem unpack_one : (Float.exactlyRepresentablePowersOfTen[0]).toModel.unpack =
    .finite .positive (2 ^ 52) (-52) (Nat.two_pow_pos 52) := by
  rfl

theorem unpack_natural {n : Nat} (hn : n ≠ 0) (hlt : n < 2 ^ 53) (hpos : 0 < n * 2 ^ shiftOf n) :
    (Float.ofScientific n true 0).toModel.unpack =
      .finite .positive (n * 2 ^ shiftOf n) (-(shiftOf n : Int)) hpos := by
  have hlog := log2_shifted hn hlt
  have hlow : -1074 < -(shiftOf n : Int) := by
    rw [shiftOf]
    omega
  rw [Float.ofScientific, dif_pos ⟨hlt, Nat.zero_le 22⟩]
  change unpack .binary64 (pack .binary64 (div .binary64 n.toUInt64.toFloat.toModel.unpack
    (Float.exactlyRepresentablePowersOfTen[0]).toModel.unpack)) = _
  rw [unpack_toFloat hn hlt hpos, unpack_one, div_one_exact hlog hlow hpos,
    unpack_pack_normal hlog hlow.le (by omega) hpos]

/-- **A natural number below `2 ^ 53` is its own double.** -/
theorem integer?_natural {n : Nat} (hlt : n < 2 ^ 53) :
    integer? (Float.ofScientific n true 0) = some (n : Int) := by
  rcases Nat.eq_zero_or_pos n with rfl | hn
  · decide
  · have hpos : 0 < n * 2 ^ shiftOf n := Nat.mul_pos hn (Nat.two_pow_pos _)
    rw [integer?, dyadic?, unpack_natural hn.ne' hlt hpos]
    exact Dyadic.integer?_shifted n (shiftOf n)

theorem ofFloat?_natural {n : Nat} (hn : n ≤ Number.maxExact) :
    Number.ofFloat? (Float.ofScientific n true 0) = some (.integer n) := by
  have hlt : n < 2 ^ 53 := Nat.lt_of_le_of_lt hn (by decide)
  rw [Number.ofFloat?, integer?_natural hlt]
  exact if_pos hn

end Numeric
end FlowDocs
