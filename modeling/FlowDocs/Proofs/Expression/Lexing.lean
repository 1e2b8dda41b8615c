/-
  FlowDocs/Proofs/Expression/Lexing.lean
  ======================================
  **Names under the rules of lexemes.**

  The rules of `Lexeme.first` are tried in a fixed order, and a name is the last
  kind of lexeme but one.  A character of a name is no blank and no quote, and no
  operator starts with it; one that starts a name is no character of a number
  either, so it satisfies none of the rules before.  A text of name characters is
  one lexeme.
-/
import FlowDocs.Expression.Lexeme
import Mathlib

namespace FlowDocs

/-! ### What a name starts with -/

theorem toNat_of_isNameStart {c : Char} (h : isNameStart c = true) :
    (65 ≤ c.toNat ∧ c.toNat ≤ 90) ∨ (97 ≤ c.toNat ∧ c.toNat ≤ 122) ∨ c.toNat = 95 ∨
      c.toNat = 36 := by
  simp only [isNameStart, Char.isAlpha, Char.isUpper, Char.isLower, Bool.or_eq_true,
    Bool.and_eq_true, decide_eq_true_eq, beq_iff_eq, ge_iff_le, UInt32.le_iff_toNat_le] at h
  rcases h with ((h | h) | rfl) | rfl
  · exact Or.inl h
  · exact Or.inr (Or.inl h)
  · exact Or.inr (Or.inr (Or.inl rfl))
  · exact Or.inr (Or.inr (Or.inr rfl))

theorem isNumberChar_of_isNameStart {c : Char} (h : isNameStart c = true) :
    isNumberChar c = false := by
  have hn := toNat_of_isNameStart h
  have hdot : c ≠ '.' := by rintro rfl; simp at hn
  have hdigit : c.isDigit = false := by
    simp only [Char.isDigit, Bool.and_eq_false_iff, decide_eq_false_iff_not, ge_iff_le,
      UInt32.le_iff_toNat_le]
    change ¬ 48 ≤ c.toNat ∨ ¬ c.toNat ≤ 57
    omega
  simp [isNumberChar, hdigit, hdot]

theorem isNameChar_of_isNameStart {c : Char} (h : isNameStart c = true) : isNameChar c = true := by
  simp only [isNameStart, Bool.or_eq_true, beq_iff_eq] at h
  rcases h with (halpha | rfl) | rfl
  · simp [isNameChar, Char.isAlphanum, halpha]
  · rfl
  · rfl

theorem isNameChar_of_isDigit {c : Char} (h : c.isDigit = true) : isNameChar c = true := by
  simp [isNameChar, Char.isAlphanum, h]

theorem isNameChar_of_isNumberChar {c : Char} (h : isNumberChar c = true) :
    isNameChar c = true := by
  rcases Bool.or_eq_true_iff.mp h with hdigit | hpoint
  · exact isNameChar_of_isDigit hdigit
  · rw [beq_iff_eq.mp hpoint]
    rfl

/-! ### What a name holds -/

theorem toNat_of_isNameChar {c : Char} (h : isNameChar c = true) :
    36 ≤ c.toNat ∧ c.toNat ≤ 122 := by
  simp only [isNameChar, Char.isAlphanum, Bool.or_eq_true, beq_iff_eq] at h
  rcases h with ((((halphanum | rfl) | rfl) | rfl) | rfl) | rfl
  · rcases halphanum with halpha | hdigit
    · have hn := toNat_of_isNameStart (c := c) (by simp [isNameStart, halpha])
      omega
    · simp only [Char.isDigit, Bool.and_eq_true, decide_eq_true_eq, ge_iff_le,
        UInt32.le_iff_toNat_le] at hdigit
      change 48 ≤ c.toNat ∧ c.toNat ≤ 57 at hdigit
      omega
  all_goals decide

theorem isBlank_of_isNameChar {c : Char} (h : isNameChar c = true) : Text.isBlank c = false := by
  have hn := toNat_of_isNameChar h
  simp only [Text.isBlank, Bool.or_eq_false_iff, Bool.and_eq_false_iff, decide_eq_false_iff_not,
    beq_eq_false_iff_ne]
  omega

theorem isNameChar_of_isBlank {c : Char} (h : Text.isBlank c = true) : isNameChar c = false := by
  by_contra hname
  rw [Bool.not_eq_false] at hname
  rw [isBlank_of_isNameChar hname] at h
  cases h

theorem ne_quote_of_isNameChar {c : Char} (h : isNameChar c = true) :
    ¬ (c = '\'' ∨ c = '"') := by
  rintro (rfl | rfl) <;> exact absurd h (by decide)

theorem Text.trim_eq_self {cs : List Char} (h : ∀ c ∈ cs, isBlank c = false) : trim cs = cs := by
  have hdrop : ∀ ds : List Char, (∀ c ∈ ds, isBlank c = false) → ds.dropWhile isBlank = ds := by
    intro ds hds
    cases ds with
    | nil => rfl
    | cons d rest => rw [List.dropWhile_cons, hds d List.mem_cons_self]; rfl
  have hreverse : ∀ c ∈ cs.reverse, isBlank c = false :=
    fun c hc => h c (List.mem_reverse.mp hc)
  rw [trim, trimStart, hdrop cs h, trimEnd, hdrop cs.reverse hreverse, List.reverse_reverse]

/-! ### Operators -/

/-- Only the symbol of an operator is read as the operator. -/
theorem Operator.eq_symbol_of_ofSymbol? {cs : List Char} {op : Operator}
    (h : Operator.ofSymbol? cs = some op) : cs = op.symbol := by
  unfold Operator.ofSymbol? at h
  split at h <;> cases h <;> rfl

theorem Operator.not_isNameChar_of_symbol {op : Operator} {c : Char} {cs : List Char}
    (h : op.symbol = c :: cs) : isNameChar c = false := by
  cases op <;> cases h <;> rfl

theorem Operator.ofSymbol?_of_isNameChar {c : Char} (h : isNameChar c = true)
    (cs : List Char) : Operator.ofSymbol? (c :: cs) = none := by
  cases heq : Operator.ofSymbol? (c :: cs) with
  | none => rfl
  | some op =>
    have hsymbol := (Operator.eq_symbol_of_ofSymbol? heq).symm
    rw [Operator.not_isNameChar_of_symbol hsymbol] at h
    exact absurd h (by decide)

/-! ### The tokens of the first lexeme and of the rest -/

@[simp] theorem tokenize_nil : tokenize [] = [] := by
  rw [tokenize, lexemes, List.filterMap_nil]

theorem tokenize_cons (c : Char) (cs : List Char) :
    tokenize (c :: cs) = (Lexeme.first c cs).1.token?.toList ++ tokenize (Lexeme.first c cs).2 := by
  rw [tokenize, lexemes, List.filterMap_cons]
  cases (Lexeme.first c cs).1.token? <;> rfl

/-! ### Names -/

namespace Lexeme

theorem operatorAt?_of_isNameChar {c : Char} (h : isNameChar c = true) (rest : List Char) :
    operatorAt? c rest = none := by
  cases rest <;> simp [operatorAt?, Operator.ofSymbol?_of_isNameChar h]

/-- A character that starts a name starts the longest name there is. -/
theorem first_of_isNameStart {c : Char} (h : isNameStart c = true) (rest : List Char) :
    first c rest = (.name (c :: rest.takeWhile isNameChar), rest.dropWhile isNameChar) := by
  have hname := isNameChar_of_isNameStart h
  simp [first, isBlank_of_isNameChar hname, ne_quote_of_isNameChar hname,
    operatorAt?_of_isNameChar hname, isNumberChar_of_isNameStart h, h]

end Lexeme

/-- A text of name characters is one lexeme. -/
theorem lexemes_name {c : Char} {rest : List Char} (hc : isNameStart c = true)
    (hrest : rest.all isNameChar = true) : lexemes (c :: rest) = [.name (c :: rest)] := by
  have htake := List.takeWhile_eq_self_iff.mpr (List.all_eq_true.mp hrest)
  have hdrop := List.dropWhile_eq_nil_iff.mpr (List.all_eq_true.mp hrest)
  rw [lexemes, Lexeme.first_of_isNameStart hc, htake, hdrop, lexemes]

/-- A text of name characters that is no keyword is one reference. -/
theorem tokenize_name {c : Char} {rest : List Char} (hc : isNameStart c = true)
    (hrest : rest.all isNameChar = true) (hkeyword : Token.keyword? (c :: rest) = none) :
    tokenize (c :: rest) = [.reference (String.ofList (c :: rest))] := by
  simp [tokenize, lexemes_name hc hrest, Lexeme.token?, Token.ofName, hkeyword]

end FlowDocs
