/-
  FlowDocs/Proofs/Json/Scalars.lean
  =================================
  **Scalars are read back from their text.**

  An integer of 64 bits is written as its digits, and the reader gathers these digits
  without losing one as long as nothing behind them could belong to a number.  A string is
  written character by character, and whatever stands for a character is read as that
  character, so the reader arrives at the closing quote with the string complete.
-/
import FlowDocs.Json.Reader
import FlowDocs.Json.Writer
import Mathlib

namespace FlowDocs.Json

/-! ### Layout -/

def IsGap (gap : List Char) : Prop := ∀ c ∈ gap, isLayout c = true

theorem skipLayout_gap {gap : List Char} (h : IsGap gap) (rest : List Char) :
    skipLayout (gap ++ rest) = skipLayout rest :=
  List.dropWhile_append_of_pos h

theorem skipLayout_cons {c : Char} (h : isLayout c = false) (rest : List Char) :
    skipLayout (c :: rest) = c :: rest :=
  List.dropWhile_cons_of_neg (by simp [h])

theorem isLayout_of_isDigit {c : Char} (h : c.isDigit = true) : isLayout c = false := by
  by_contra hlayout
  simp only [Bool.not_eq_false, isLayout, Bool.or_eq_true, beq_iff_eq] at hlayout
  rcases hlayout with ((rfl | rfl) | rfl) | rfl <;> cases h

/-! ### Integers -/

/-- No number goes on here. -/
def EndsNumber (rest : List Char) : Prop :=
  ∀ c ∈ rest.head?, c.isDigit = false ∧ c ≠ '.' ∧ c ≠ 'e' ∧ c ≠ 'E'

theorem endsNumber_nil : EndsNumber [] := by
  rintro c ⟨⟩

theorem endsNumber_gap {gap rest : List Char} (h : IsGap gap) (hrest : EndsNumber rest) :
    EndsNumber (gap ++ rest) := by
  cases gap with
  | nil => exact hrest
  | cons c gap =>
    have hc := h c List.mem_cons_self
    rintro d ⟨⟩
    refine ⟨?_, ?_, ?_, ?_⟩
    · by_contra hdigit
      rw [Bool.not_eq_false] at hdigit
      rw [isLayout_of_isDigit hdigit] at hc
      cases hc
    all_goals rintro rfl; cases hc

theorem le_ofDigitChars (cs : List Char) (significand : Nat) :
    significand ≤ Nat.ofDigitChars 10 cs significand := by
  rw [Nat.ofDigitChars_eq_ofDigitChars_zero]
  exact (Nat.le_mul_of_pos_left significand (by positivity)).trans (Nat.le_add_right _ _)

/-- Digits whose number fits a word are gathered to the last. -/
theorem takeWhole_digits {cs rest : List Char} {significand : Nat}
    (hdigits : ∀ c ∈ cs, c.isDigit = true) (hend : EndsNumber rest)
    (hfit : Nat.ofDigitChars 10 cs significand ≤ maxWord) :
    takeWhole significand (cs ++ rest) = (Nat.ofDigitChars 10 cs significand, 0, rest) := by
  induction cs generalizing significand with
  | nil =>
    cases rest with
    | nil => rfl
    | cons c rest => rw [List.nil_append, takeWhole, (hend c rfl).1]; rfl
  | cons c cs ih =>
    obtain ⟨hc, hcs⟩ := List.forall_mem_cons.mp hdigits
    have hnext : 10 * significand + (c.toNat - '0'.toNat) = significand * 10 + digitValue c := by
      rw [Nat.mul_comm]; rfl
    rw [Nat.ofDigitChars_cons, hnext] at hfit ⊢
    rw [List.cons_append, takeWhole, if_pos hc]
    exact (if_pos ((le_ofDigitChars cs _).trans hfit)).trans (ih hcs hfit)

theorem toDigits_head {n : Nat} (h : 0 < n) :
    ∃ c cs, Nat.toDigits 10 n = c :: cs ∧ c ≠ '0' := by
  induction n using Nat.strong_induction_on with
  | _ n ih =>
    by_cases hsmall : n < 10
    · refine ⟨n.digitChar, [], Nat.toDigits_of_lt_base hsmall, ?_⟩
      interval_cases n <;> decide
    · have hlarge : 10 ≤ n := Nat.le_of_not_lt hsmall
      obtain ⟨c, cs, hdigits, hc⟩ := ih (n / 10) (by omega) (by omega)
      refine ⟨c, cs ++ [(n % 10).digitChar], ?_, hc⟩
      rw [Nat.toDigits_of_base_le (by decide) hlarge, hdigits, List.cons_append]

theorem readFraction_whole (negative : Bool) (significand : Nat) {rest : List Char}
    (hend : EndsNumber rest) :
    readFraction negative significand 0 rest = .ok (wholeNumber negative significand, rest) := by
  cases rest with
  | nil => rfl
  | cons c rest =>
    obtain ⟨-, hpoint, hsmall, hlarge⟩ := hend c rfl
    rw [readFraction]
    · rw [if_pos rfl]
    · rintro rest ⟨⟩; exact hpoint rfl
    · rintro rest ⟨⟩; exact hsmall rfl
    · rintro rest ⟨⟩; exact hlarge rfl

theorem readNumber_toDigits (negative : Bool) {n : Nat} (hfit : n ≤ maxWord) {rest : List Char}
    (hend : EndsNumber rest) :
    readNumber negative (Nat.toDigits 10 n ++ rest) = .ok (wholeNumber negative n, rest) := by
  rcases Nat.eq_zero_or_pos n with rfl | hpos
  · rw [Nat.toDigits_zero, List.singleton_append]
    cases rest with
    | nil => exact readFraction_whole negative 0 hend
    | cons c rest =>
      have hdigit : ¬ c.isDigit = true := by simp [(hend c rfl).1]
      exact (if_neg hdigit).trans (readFraction_whole negative 0 hend)
  · obtain ⟨c, cs, hdigits, hc⟩ := toDigits_head hpos
    have hall : ∀ d ∈ c :: cs, d.isDigit = true := by
      rw [← hdigits]
      exact fun d hd => Nat.isDigit_of_mem_toDigits (by decide) (by decide) hd
    have hvalue : Nat.ofDigitChars 10 cs (digitValue c) = n := by
      have hread := @Nat.ofDigitChars_ten_toDigits n
      rwa [hdigits, Nat.ofDigitChars_cons, Nat.mul_zero, Nat.zero_add] at hread
    obtain ⟨hdigit, hrun⟩ := List.forall_mem_cons.mp hall
    have hgather := takeWhole_digits hrun hend (hvalue.trans_le hfit)
    rw [hdigits, List.cons_append, readNumber.eq_def]
    simp only [if_neg hc, if_pos hdigit, hgather, hvalue]
    exact readFraction_whole negative n hend

/-! ### Strings -/

theorem hexValue?_hexDigit (n : Nat) : hexValue? (hexDigit n) = some (n % 16) := by
  have hall : ∀ m < 16, hexValue? (Nat.digitChar m) = some m := by decide
  exact hall (n % 16) (Nat.mod_lt n (by decide))

theorem readHex_of_hexValue? {a b c d : Char} {w x y z : Nat} (ha : hexValue? a = some w)
    (hb : hexValue? b = some x) (hc : hexValue? c = some y) (hd : hexValue? d = some z)
    (rest : List Char) :
    readHex (a :: b :: c :: d :: rest) = .ok (((w * 16 + x) * 16 + y) * 16 + z, rest) := by
  have hbytes : ¬ byteCount [a, b, c, d] < 4 := by
    have := a.utf8Size_pos
    have := b.utf8Size_pos
    have := c.utf8Size_pos
    have := d.utf8Size_pos
    simp only [byteCount, List.foldl_cons, List.foldl_nil]
    omega
  rw [readHex, List.take_succ_cons, List.take_succ_cons, List.take_succ_cons, List.take_succ_cons,
    List.take_zero, if_neg hbytes]
  simp only [ha, hb, hc, hd]

theorem readCodePoint_control {c : Char} (h : c.toNat < 0x20) (rest : List Char) :
    readCodePoint ('0' :: '0' :: hexDigit (c.toNat / 16) :: hexDigit c.toNat :: rest)
      = .ok (c, rest) := by
  have hcode : ((0 * 16 + 0) * 16 + c.toNat / 16 % 16) * 16 + c.toNat % 16 = c.toNat := by omega
  have hzero : hexValue? '0' = some 0 := rfl
  have hread := readHex_of_hexValue? hzero hzero (hexValue?_hexDigit (c.toNat / 16))
    (hexValue?_hexDigit c.toNat) rest
  rw [hcode] at hread
  rw [readCodePoint, hread]
  simp only
  rw [if_neg (by omega), if_pos (by omega), Char.ofNat_toNat]

/-- A character after a backslash. -/
theorem readString_escape {cs cs' rest ds : List Char} {c : Char}
    (hescape : readEscape cs = .ok (c, cs')) (hrest : readString cs' = .ok (ds, rest)) :
    readString ('\\' :: cs) = .ok (c :: ds, rest) := by
  rw [readString, if_neg (by decide), if_pos rfl]
  split
  · rename_i stop hread
    rw [hescape] at hread
    cases hread
  · rename_i d cs'' hread
    rw [hescape] at hread
    cases hread
    rw [hrest]

/-- A character that stands for itself. -/
theorem readString_plain {c : Char} (hquote : c ≠ '"') (hslash : c ≠ '\\')
    (hcontrol : ¬ c.toNat < 0x20) {cs ds rest : List Char}
    (hrest : readString cs = .ok (ds, rest)) :
    readString (c :: cs) = .ok (c :: ds, rest) := by
  rw [readString, if_neg hquote, if_neg hslash, if_neg hcontrol, hrest]

theorem readString_escaped (c : Char) {cs ds rest : List Char}
    (hrest : readString cs = .ok (ds, rest)) :
    readString (escaped c ++ cs) = .ok (c :: ds, rest) := by
  unfold escaped
  split_ifs with hquote hslash hback hfeed hline hreturn htab hcontrol
  · subst hquote; exact readString_escape rfl hrest
  · subst hslash; exact readString_escape rfl hrest
  · subst hback; exact readString_escape rfl hrest
  · subst hfeed; exact readString_escape rfl hrest
  · subst hline; exact readString_escape rfl hrest
  · subst hreturn; exact readString_escape rfl hrest
  · subst htab; exact readString_escape rfl hrest
  · exact readString_escape (readCodePoint_control hcontrol cs) hrest
  · exact readString_plain hquote hslash hcontrol hrest

/-- The characters of a string, each as it is written, and the closing quote. -/
theorem readString_flatMap (cs rest : List Char) :
    readString (cs.flatMap escaped ++ '"' :: rest) = .ok (cs, rest) := by
  induction cs with
  | nil => rw [List.flatMap_nil, List.nil_append, readString, if_pos rfl]
  | cons c cs ih =>
    rw [List.flatMap_cons, List.append_assoc]
    exact readString_escaped c ih

end FlowDocs.Json
