/-
  FlowDocs/Proofs/Numeric/ExactArithmetic.lean
  ============================================
  **Arithmetic on small integers is exact.**

  Integers below `2 ^ 53` are doubles.  A sum, a difference, a product or a remainder of two
  such doubles is formed exactly and then rounded, and rounding changes nothing when the exact
  result is again below `2 ^ 53`.  A result read back as a number is an integer whatever the
  sign of a zero may be.
-/
import FlowDocs.Proofs.Numeric.Integers

namespace FlowDocs

namespace Numeric

open Float.Model (UnpackedFloat Format totalExponent)
open Float.Model.UnpackedFloat

section
variable {x y : UnpackedFloat} {a b : Int}

/-! ### Sums and differences -/

/-- The mantissa of a number whose exponent is lowered from `-s` to `-k`. -/
theorem shiftLeft_shifted (n : Nat) {s k : Nat} (hk : s ≤ k) :
    (n * 2 ^ s) <<< (-(s : Int) - -(k : Int)).toNat = n * 2 ^ k := by
  have hshift : (-(s : Int) - -(k : Int)).toNat = k - s := by omega
  rw [hshift, Nat.shiftLeft_eq, Nat.mul_assoc, ← Nat.pow_add, Nat.add_sub_cancel' hk]

theorem decreaseExponent_shifted (n : Nat) {s k : Nat} (hk : s ≤ k) :
    decreaseExponent (n * 2 ^ s) (-(s : Int)) (-(k : Int)) = (n * 2 ^ k, -(k : Int)) := by
  rw [decreaseExponent, shiftLeft_shifted n hk]
  exact Prod.ext rfl (by omega)

theorem apply_mul (sign : Sign) (n m : Int) : sign.apply (n * m) = sign.apply n * m := by
  cases sign with
  | positive => rfl
  | negative => exact (Int.neg_mul n m).symm

theorem isInteger_add (hx : IsInteger x a) (hy : IsInteger y b) (ha : a.natAbs < 2 ^ 53)
    (hb : b.natAbs < 2 ^ 53) (hlt : (a + b).natAbs < 2 ^ 53) :
    IsInteger (add .binary64 x y) (a + b) := by
  rcases hx.fields ha with ⟨sign, rfl, rfl⟩ | ⟨sign, n, hpos, hn, rfl, rfl⟩
  · rw [Int.zero_add]
    rcases hy.fields hb with ⟨sign', rfl, rfl⟩ | ⟨sign', m, hpos', hm, rfl, rfl⟩
    · rw [add]
      split
      · exact .zero sign
      · exact .zero .positive
    · exact hy
  · rcases hy.fields hb with ⟨sign', rfl, rfl⟩ | ⟨sign', m, hpos', hm, rfl, rfl⟩
    · rw [Int.add_zero]
      exact hx
    · have hmin : min (-(shiftOf n : Int)) (-(shiftOf m : Int)) =
          -((max (shiftOf n) (shiftOf m) : Nat) : Int) := by omega
      have hsum : sign.apply ((n * 2 ^ max (shiftOf n) (shiftOf m) : Nat) : Int) +
          sign'.apply ((m * 2 ^ max (shiftOf n) (shiftOf m) : Nat) : Int) =
          (sign.apply n + sign'.apply m) * 2 ^ max (shiftOf n) (shiftOf m) := by
        push_cast
        rw [apply_mul, apply_mul, Int.add_mul]
      -- the two mantissas are brought to one exponent
      rw [add, hmin, decreaseExponent_shifted n (Nat.le_max_left _ _),
        decreaseExponent_shifted m (Nat.le_max_right _ _)]
      dsimp only
      rw [hsum]
      exact isInteger_normalize hlt _ .positive

/-- Subtracting is adding the opposite, in every format. -/
theorem sub_eq_add_negated (spec : Format) (x y : UnpackedFloat) :
    sub spec x y = add spec x y.neg := by
  cases x with
  | finite s m e hpos =>
    cases y with
    | finite s' m' e' hpos' =>
      cases s' with
      | positive => rfl
      | negative =>
        rw [sub, neg, add]
        simp only [Sign.apply, sub_neg_eq_add]
    | _ => rfl
  | _ => cases y <;> rfl

theorem isInteger_sub (hx : IsInteger x a) (hy : IsInteger y b) (ha : a.natAbs < 2 ^ 53)
    (hb : b.natAbs < 2 ^ 53) (hlt : (a - b).natAbs < 2 ^ 53) :
    IsInteger (sub .binary64 x y) (a - b) := by
  rw [sub_eq_add_negated, Int.sub_eq_add_neg]
  exact isInteger_add hx (isInteger_neg hy) ha (by rwa [Int.natAbs_neg]) hlt

/-! ### Products -/

theorem apply_mul_apply (s s' : Sign) (n m : Nat) :
    (s * s').apply ((n * m : Nat) : Int) = s.apply n * s'.apply m := by
  push_cast
  cases s with
  | positive =>
    cases s' with
    | positive => rfl
    | negative => exact (Int.mul_neg n m).symm
  | negative =>
    cases s' with
    | positive => exact (Int.neg_mul n m).symm
    | negative => exact (Int.neg_mul_neg n m).symm

theorem shiftOf_mul_le {n m : Nat} (hn : n ≠ 0) (hm : m ≠ 0) :
    shiftOf (n * m) ≤ shiftOf n + shiftOf m := by
  have hlog : n.log2 ≤ (n * m).log2 := by
    rw [Nat.le_log2 (Nat.mul_ne_zero hn hm)]
    exact (Nat.log2_self_le hn).trans (Nat.le_mul_of_pos_right n (Nat.pos_of_ne_zero hm))
  rw [shiftOf, shiftOf, shiftOf]
  omega

theorem isInteger_mul (hx : IsInteger x a) (hy : IsInteger y b) (ha : a.natAbs < 2 ^ 53)
    (hb : b.natAbs < 2 ^ 53) (hlt : (a * b).natAbs < 2 ^ 53) :
    IsInteger (mul .binary64 x y) (a * b) := by
  rcases hx.fields ha with ⟨sign, rfl, rfl⟩ | ⟨sign, n, hpos, hn, rfl, rfl⟩
  · rw [Int.zero_mul]
    rcases hy.fields hb with ⟨sign', rfl, rfl⟩ | ⟨sign', m, hpos', hm, rfl, rfl⟩
    · exact .zero _
    · exact .zero _
  · rcases hy.fields hb with ⟨sign', rfl, rfl⟩ | ⟨sign', m, hpos', hm, rfl, rfl⟩
    · rw [Int.mul_zero]
      exact .zero _
    · have hn := (Nat.pos_of_mul_pos_right hpos).ne'
      have hm := (Nat.pos_of_mul_pos_right hpos').ne'
      have hmantissa : n * 2 ^ shiftOf n * (m * 2 ^ shiftOf m) =
          n * m * 2 ^ (shiftOf n + shiftOf m) := by ring
      have hexponent : -(shiftOf n : Int) + -(shiftOf m : Int) =
          -((shiftOf n + shiftOf m : Nat) : Int) := by omega
      rw [← apply_mul_apply, natAbs_apply] at hlt
      rw [mul, hmantissa, hexponent, ← apply_mul_apply]
      exact isInteger_roundWithAccuracy (Nat.mul_ne_zero hn hm) hlt (shiftOf_mul_le hn hm) _

end

/-! ### Remainders -/

theorem tmod_apply (s s' : Sign) (n m : Nat) :
    (s.apply (n : Int)).tmod (s'.apply (m : Int)) = s.apply ((n % m : Nat) : Int) := by
  have hmagnitudes : (n : Int).tmod (s'.apply (m : Int)) = ((n % m : Nat) : Int) := by
    cases s' with
    | positive => rfl
    | negative => exact Int.tmod_neg n m
  cases s with
  | positive => exact hmagnitudes
  | negative => exact (Int.neg_tmod n _).trans (congrArg Neg.neg hmagnitudes)

/-- The sign of a dyadic number is the sign it was read from. -/
theorem sign_of_dyadic (sign : Sign) :
    (if sign == .negative then Sign.negative else .positive) = sign := by
  cases sign <;> rfl

theorem sign_apply_zero (sign : Sign) : sign.apply ((0 : Nat) : Int) = 0 := by
  cases sign <;> rfl

theorem isInteger_dyadic (sign : Sign) {n : Nat} (hlt : n < 2 ^ 53) (k : Nat) :
    IsInteger (Dyadic.toFloat ⟨sign == .negative, n * 2 ^ k, -(k : Int)⟩).toModel.unpack
      (sign.apply n) := by
  rw [Dyadic.toFloat]
  dsimp only
  rw [sign_of_dyadic]
  rcases Nat.eq_zero_or_pos n with rfl | hn
  · rw [if_pos (Nat.zero_mul _), sign_apply_zero]
    exact isInteger_unpack_pack (.zero sign)
  · rw [if_neg (Nat.mul_ne_zero hn.ne' (Nat.two_pow_pos k).ne')]
    exact isInteger_unpack_pack (isInteger_round hn.ne' hlt k sign)

theorem mantissaAt_shifted (negative : Bool) (n : Nat) {s k : Nat} (hk : s ≤ k) :
    Dyadic.mantissaAt ⟨negative, n * 2 ^ s, -(s : Int)⟩ (-(k : Int)) = n * 2 ^ k := by
  rw [Dyadic.mantissaAt, shiftLeft_shifted n hk]

/-- The remainder of two shifted mantissas is the shifted remainder. -/
theorem remainder_shifted (negative negative' : Bool) (n m s s' : Nat) :
    Dyadic.remainder ⟨negative, n * 2 ^ s, -(s : Int)⟩ ⟨negative', m * 2 ^ s', -(s' : Int)⟩ =
      ⟨negative, n % m * 2 ^ max s s', -((max s s' : Nat) : Int)⟩ := by
  have hmin : min (-(s : Int)) (-(s' : Int)) = -((max s s' : Nat) : Int) := by omega
  rw [Dyadic.remainder]
  dsimp only
  rw [hmin, mantissaAt_shifted negative n (Nat.le_max_left s s'),
    mantissaAt_shifted negative' m (Nat.le_max_right s s'), Nat.mul_mod_mul_right]

section
variable {x y : Float} {a b : Int}

/-- What is read off a double that holds a small integer, a zero included. -/
theorem dyadic?_of_isInteger (hx : IsInteger x.toModel.unpack a) (ha : a.natAbs < 2 ^ 53) :
    ∃ sign : Sign, ∃ n k : Nat, n < 2 ^ 53 ∧ a = sign.apply (n : Int) ∧
      dyadic? x = some ⟨sign == .negative, n * 2 ^ k, -(k : Int)⟩ := by
  rcases hx.fields ha with ⟨sign, hunpack, rfl⟩ | ⟨sign, n, hpos, hn, rfl, hunpack⟩
  · refine ⟨sign, 0, 0, Nat.two_pow_pos 53, (sign_apply_zero sign).symm, ?_⟩
    rw [dyadic?, hunpack]
    rfl
  · refine ⟨sign, n, shiftOf n, hn, rfl, ?_⟩
    rw [dyadic?, hunpack]

/-- **The remainder of two small integers has the sign of the first,** and it is zero when the
    second is. -/
theorem isInteger_remainder (hx : IsInteger x.toModel.unpack a)
    (hy : IsInteger y.toModel.unpack b) (ha : a.natAbs < 2 ^ 53) (hb : b.natAbs < 2 ^ 53) :
    IsInteger (Operator.remainder x y).toModel.unpack (if b = 0 then 0 else a.tmod b) := by
  have hzero : (y == 0.0) = true ↔ b = 0 := by
    have hcompare : y.toModel.unpack.compare (0.0 : Float).toModel.unpack = some (compare b 0) :=
      compare_of_isInteger hy (.zero .positive)
    rw [beq_iff, hcompare, Option.some.injEq, compare_eq_iff_eq]
  rw [Operator.remainder]
  by_cases hb0 : b = 0
  · rw [if_pos (hzero.mpr hb0), if_pos hb0]
    exact .zero .positive
  · obtain ⟨sign, n, k, hn, rfl, hdividend⟩ := dyadic?_of_isInteger hx ha
    obtain ⟨sign', m, k', hm, rfl, hdivisor⟩ := dyadic?_of_isInteger hy hb
    have hm0 : 0 < m := by
      rw [← natAbs_apply sign' m]
      exact Int.natAbs_pos.mpr hb0
    rw [if_neg (mt hzero.mp hb0), if_neg hb0, Numeric.remainder, hdividend, hdivisor]
    dsimp only
    rw [if_neg (Nat.mul_ne_zero hm0.ne' (Nat.two_pow_pos k').ne'), remainder_shifted, tmod_apply]
    exact isInteger_dyadic sign ((Nat.mod_lt n hm0).trans hm) _

/-! ### From integers and back

A small natural number becomes a double as a word times a power of ten, which is one here. -/

theorem isInteger_ofNat {n : Nat} (hlt : n < 2 ^ 53) :
    IsInteger (Float.ofNat n).toModel.unpack n := by
  have hofNat : Float.ofNat n = n.toUInt64.toFloat * Float.exactlyRepresentablePowersOfTen[0] :=
    dif_pos ⟨hlt, Nat.zero_le 22⟩
  have hone : IsInteger (Float.exactlyRepresentablePowersOfTen[0]).toModel.unpack 1 := by
    rw [unpack_one]
    exact .finite .positive (n := 1) _ (Nat.log2_two_pow ..) (by decide) (by decide) (by decide)
  have hword : IsInteger n.toUInt64.toFloat.toModel.unpack n := by
    rcases Nat.eq_zero_or_pos n with rfl | hn
    · exact .zero .positive
    · have hpos : 0 < n * 2 ^ shiftOf n := Nat.mul_pos hn (Nat.two_pow_pos _)
      rw [unpack_toFloat hn.ne' hlt hpos]
      exact isInteger_shifted .positive hlt hpos
  have hproduct : ((n : Int) * 1).natAbs < 2 ^ 53 := by
    rw [Int.mul_one]
    exact hlt
  rw [hofNat]
  have h := isInteger_unpack_pack (isInteger_mul hword hone hlt (by decide) hproduct)
  rw [Int.mul_one] at h
  exact h

/-- **An integer below `2 ^ 53` is its own double.** -/
theorem isInteger_ofInt {n : Int} (hlt : n.natAbs < 2 ^ 53) :
    IsInteger (Float.ofInt n).toModel.unpack n := by
  cases n with
  | ofNat n => exact isInteger_ofNat hlt
  | negSucc n => exact isInteger_unpack_pack (isInteger_neg (isInteger_ofNat hlt))

theorem Dyadic.integer?_signed (sign : Sign) (n s : Nat) :
    Dyadic.integer? ⟨sign == .negative, n * 2 ^ s, -(s : Int)⟩ = some (sign.apply n) := by
  have hpositive := Dyadic.integer?_shifted n s
  cases sign with
  | positive => exact hpositive
  | negative =>
    rw [Dyadic.integer?] at hpositive ⊢
    obtain ⟨k, hk, hn⟩ := Option.map_eq_some_iff.mp hpositive
    obtain rfl : k = n := Int.natCast_inj.mp hn
    exact (congrArg (Option.map _) hk).trans rfl

/-- **A double that holds a small integer is read back as this integer.** -/
theorem ofFloat?_of_isInteger (hx : IsInteger x.toModel.unpack a)
    (ha : a.natAbs ≤ Number.maxExact) : Number.ofFloat? x = some (.integer a) := by
  have hlt : a.natAbs < 2 ^ 53 := Nat.lt_of_le_of_lt ha (by decide)
  have hinteger : integer? x = some a := by
    obtain ⟨sign, n, k, -, rfl, hdyadic⟩ := dyadic?_of_isInteger hx hlt
    rw [integer?, hdyadic]
    exact Dyadic.integer?_signed sign n k
  rw [Number.ofFloat?, hinteger]
  exact if_pos ha

end

end Numeric
end FlowDocs
