/-
  FlowDocs/Proofs/Text/Bytes.lean
  ===============================
  **Texts are ordered by their bytes.**

  Names are compared character by character, a file system compares bytes.  UTF-8 was made
  so that this is the same: the bytes of the greater of two characters are the greater,
  whatever comes behind, since a longer form has a greater first byte and forms of one
  length spell the character from its leading digits on.
-/
import Mathlib

namespace FlowDocs.Text

/-- The UTF-8 form of a text. -/
def bytes (text : String) : List UInt8 := text.toUTF8.data.toList

theorem bytes_eq_flatMap (text : String) :
    bytes text = text.toList.flatMap String.utf8EncodeChar := by
  rw [bytes, String.toUTF8_eq_toByteArray, ← String.utf8Encode_toList, List.utf8Encode,
    List.toList_data_toByteArray]

/-! ### One character -/

/-- The forms of the numbers below a bound grow with the numbers, whatever comes behind. -/
def Ascending (bound : Nat) (form : Nat → List UInt8) : Prop :=
  ∀ n m, n < m → m < bound → ∀ s t, form n ++ s < form m ++ t

theorem toNat_ofNat_of_lt {n : Nat} (h : n < 256) : (UInt8.ofNat n).toNat = n := by
  rw [UInt8.toNat_ofNat']
  exact Nat.mod_eq_of_lt h

theorem cons_lt_of_lt {n m : Nat} (h : n < m) (hm : m < 256) (s t : List UInt8) :
    UInt8.ofNat n :: s < UInt8.ofNat m :: t := by
  rw [List.cons_lt_cons_iff, UInt8.lt_iff_toNat_lt, toNat_ofNat_of_lt (h.trans hm),
    toNat_ofNat_of_lt hm]
  exact Or.inl h

theorem ascending_lead {bound lead : Nat} (h : bound + lead ≤ 256) :
    Ascending bound fun n => [UInt8.ofNat (n + lead)] :=
  fun n m hnm hm s t => cons_lt_of_lt (by omega) (by omega) s t

/-- A further byte holds a further digit. -/
theorem Ascending.digit {bound : Nat} {form : Nat → List UInt8} (h : Ascending bound form) :
    Ascending (bound * 64) fun n => form (n / 64) ++ [UInt8.ofNat (n % 64 + 128)] := by
  intro n m hnm hm s t
  rw [List.append_assoc, List.append_assoc]
  by_cases hlead : n / 64 = m / 64
  · rw [hlead]
    exact List.append_left_lt (cons_lt_of_lt (by omega) (by omega) s t)
  · exact h _ _ (by omega) (by omega) _ _

/-- The forms of two, three and four bytes. -/
def twoBytes (n : Nat) : List UInt8 :=
  [UInt8.ofNat (n / 64 + 192)] ++ [UInt8.ofNat (n % 64 + 128)]

def threeBytes (n : Nat) : List UInt8 :=
  [UInt8.ofNat (n / 64 / 64 + 224)] ++ [UInt8.ofNat (n / 64 % 64 + 128)] ++
    [UInt8.ofNat (n % 64 + 128)]

def fourBytes (n : Nat) : List UInt8 :=
  [UInt8.ofNat (n / 64 / 64 / 64 + 240)] ++ [UInt8.ofNat (n / 64 / 64 % 64 + 128)] ++
    [UInt8.ofNat (n / 64 % 64 + 128)] ++ [UInt8.ofNat (n % 64 + 128)]

theorem ascending_twoBytes : Ascending 2048 twoBytes :=
  (ascending_lead (show 32 + 192 ≤ 256 by decide)).digit

theorem ascending_threeBytes : Ascending 65536 threeBytes :=
  (ascending_lead (show 16 + 224 ≤ 256 by decide)).digit.digit

theorem ascending_fourBytes : Ascending 2097152 fourBytes :=
  (ascending_lead (show 8 + 240 ≤ 256 by decide)).digit.digit.digit

theorem toNat_val_lt (c : Char) : c.val.toNat < 1114112 := by
  have h := c.valid
  unfold UInt32.isValidChar Nat.isValidChar at h
  omega

/-- A character has the form of the shortest length that can hold it. -/
theorem utf8EncodeChar_cases {c : Char} {n : Nat} (h : c.val.toNat = n) :
    n < 128 ∧ String.utf8EncodeChar c = [UInt8.ofNat n] ∨
    (128 ≤ n ∧ n < 2048) ∧ String.utf8EncodeChar c = twoBytes n ∨
    (2048 ≤ n ∧ n < 65536) ∧ String.utf8EncodeChar c = threeBytes n ∨
    (65536 ≤ n ∧ n < 1114112) ∧ String.utf8EncodeChar c = fourBytes n := by
  have hbound := toNat_val_lt c
  rw [String.utf8EncodeChar]
  simp only [h] at hbound ⊢
  split_ifs with hone htwo hthree
  · exact Or.inl ⟨by omega, rfl⟩
  · refine Or.inr (Or.inl ⟨by omega, ?_⟩)
    rw [Nat.mod_eq_of_lt (a := n / 64) (by omega)]
    rfl
  · refine Or.inr (Or.inr (Or.inl ⟨by omega, ?_⟩))
    rw [Nat.mod_eq_of_lt (a := n / 4096) (by omega)]
    simp only [threeBytes, Nat.div_div_eq_div_mul]
    rfl
  · refine Or.inr (Or.inr (Or.inr ⟨by omega, ?_⟩))
    rw [Nat.mod_eq_of_lt (a := n / 262144) (by omega)]
    simp only [fourBytes, Nat.div_div_eq_div_mul]
    rfl

/-- The greater of two characters has the greater bytes, whatever comes behind. -/
theorem utf8EncodeChar_append_lt {c d : Char} (h : c < d) (s t : List UInt8) :
    String.utf8EncodeChar c ++ s < String.utf8EncodeChar d ++ t := by
  rw [Char.lt_def, UInt32.lt_iff_toNat_lt] at h
  have hlead : ∀ {n m : Nat} {s t : List UInt8}, n < m → m < 256 →
      UInt8.ofNat n :: s < UInt8.ofNat m :: t := fun h hm => cons_lt_of_lt h hm _ _
  -- forms of one length are compared digit by digit, else the first bytes decide
  rcases utf8EncodeChar_cases (Eq.refl c.val.toNat) with
      ⟨hc, hcform⟩ | ⟨hc, hcform⟩ | ⟨hc, hcform⟩ | ⟨hc, hcform⟩ <;>
    rcases utf8EncodeChar_cases (Eq.refl d.val.toNat) with
      ⟨hd, hdform⟩ | ⟨hd, hdform⟩ | ⟨hd, hdform⟩ | ⟨hd, hdform⟩ <;>
    rw [hcform, hdform]
  case inl.inl => exact hlead h (by omega)
  case inr.inl.inr.inl => exact ascending_twoBytes _ _ h hd.2 s t
  case inr.inr.inl.inr.inr.inl => exact ascending_threeBytes _ _ h hd.2 s t
  case inr.inr.inr.inr.inr.inr => exact ascending_fourBytes _ _ h (by omega) s t
  all_goals exact hlead (by omega) (by omega)

/-! ### Whole texts -/

theorem flatMap_lt_flatMap {cs ds : List Char} (h : cs < ds) :
    cs.flatMap String.utf8EncodeChar < ds.flatMap String.utf8EncodeChar := by
  rw [← List.lex_lt] at h
  induction h with
  | nil =>
    rename_i c cs
    obtain ⟨byte, rest, hbytes⟩ := List.exists_cons_of_ne_nil (@String.utf8EncodeChar_ne_nil c)
    rw [List.flatMap_nil, List.flatMap_cons, hbytes]
    exact List.nil_lt_cons _ _
  | rel h => exact utf8EncodeChar_append_lt h _ _
  | cons h ih => exact List.append_left_lt ih

/-- **The order of texts is the order of their bytes.** -/
theorem bytes_lt_iff {a b : String} : bytes a < bytes b ↔ a < b := by
  have hmono : ∀ {a b : String}, a < b → bytes a < bytes b := by
    intro a b h
    rw [bytes_eq_flatMap, bytes_eq_flatMap]
    exact flatMap_lt_flatMap (String.lt_iff_toList_lt.mp h)
  refine ⟨fun h => ?_, hmono⟩
  rcases lt_trichotomy a b with hlt | rfl | hgt
  · exact hlt
  · exact absurd h (List.lt_irrefl _)
  · exact absurd h (List.lt_asymm (hmono hgt))

end FlowDocs.Text
