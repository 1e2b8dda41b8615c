/-
  FlowDocs/Proofs/Expression/Spelling.lean
  ========================================
  **Tokens are read back from their spelling.**

  A token is spelled as a user would write it: a string between quotes it does not hold,
  a natural number in decimal, an operator by its symbol, a name as it is.  A text renders
  some tokens when it is their spellings with at least one blank between two of them.

  A blank ends every lexeme that it does not belong to, so each spelling is the first
  lexeme of the text it starts, whatever the blank is followed by (`tokenize_spelled`).
  By induction on the rendering the tokens of the text are the tokens it renders.
-/
import FlowDocs.Proofs.Expression.Separators
import Mathlib

namespace FlowDocs

/-! ### Spellings -/

inductive Spelled : Token → List Char → Prop
  | string {s : String} {quote : Char} (hquote : quote = '\'' ∨ quote = '"')
      (hbody : quote ∉ s.toList) :
      Spelled (.literal (.str s)) (quote :: s.toList ++ [quote])
  | natural {n : Nat} (hn : n ≤ Number.maxExact) :
      Spelled (.literal (.num (.integer n))) (Nat.toDigits 10 n)
  | true : Spelled (.literal (.bool true)) "true".toList
  | false : Spelled (.literal (.bool false)) "false".toList
  | null : Spelled (.literal .null) "null".toList
  | operator (op : Operator) : Spelled (.operator op) op.symbol
  | reference {path : String} (h : IsReference path.toList) :
      Spelled (.reference path) path.toList

/-- A text of the spellings of some tokens, with one blank or more between any two. -/
inductive Rendered : List Token → List Char → Prop
  | nil : Rendered [] []
  | one {token : Token} {spelling : List Char} (h : Spelled token spelling) :
      Rendered [token] spelling
  | cons {token : Token} {tokens : List Token} {spelling gap text : List Char}
      (h : Spelled token spelling) (hgap : gap ≠ [])
      (hblank : ∀ c ∈ gap, Text.isBlank c = true) (hrest : Rendered tokens text) :
      Rendered (token :: tokens) (spelling ++ gap ++ text)

/-! ### The first lexeme of a spelling -/

theorem Operator.symbol_one_or_two (op : Operator) :
    (∃ c, op.symbol = [c]) ∨ ∃ c d, op.symbol = [c, d] := by
  cases op <;> simp [symbol]

section
variable {rest : List Char} (hend : ∀ c ∈ rest.head?, Text.isBlank c = true)

theorem tokenize_string {quote : Char} {body : List Char} (hquote : quote = '\'' ∨ quote = '"')
    (hbody : quote ∉ body) :
    tokenize (quote :: body ++ [quote] ++ rest) =
      .literal (.str (String.ofList body)) :: tokenize rest := by
  rw [List.cons_append, List.cons_append, List.append_assoc, List.singleton_append,
    tokenize_cons, Lexeme.first_of_quote hquote, Lexeme.quotedAt_closed hbody]
  rfl

include hend

theorem tokenize_symbol (op : Operator) :
    tokenize (op.symbol ++ rest) = .operator op :: tokenize rest := by
  have hread : ∀ {c cs}, op.symbol = c :: cs →
      Lexeme.operatorAt? c (cs ++ rest) = some (op, rest) →
      tokenize (op.symbol ++ rest) = .operator op :: tokenize rest := by
    intro c cs hsymbol hfound
    have hfront : c ∈ op.symbol := by
      rw [hsymbol]
      exact List.mem_cons_self
    obtain ⟨hblank, hquote⟩ := Operator.of_mem_characters (Operator.mem_characters hfront)
    have hfirst : Lexeme.first c (cs ++ rest) = (.operator op, rest) := by
      rw [Lexeme.first, hblank, if_neg hquote, hfound]
      rfl
    rw [hsymbol, List.cons_append, tokenize_cons, hfirst]
    rfl
  rcases op.symbol_one_or_two with ⟨c, hsymbol⟩ | ⟨c, d, hsymbol⟩
  · apply hread hsymbol
    have hc : Operator.ofSymbol? [c] = some op := by
      rw [← hsymbol, Operator.ofSymbol?_symbol]
    -- a longer operator would have the blank for its second character
    cases rest with
    | nil => simp [Lexeme.operatorAt?, hc]
    | cons d rest =>
      have hd : IsSeparator d := Or.inl (hend d rfl)
      have hpair : Operator.ofSymbol? [c, d] = none := hd.ofSymbol?_eq_none (by simp)
      simp [Lexeme.operatorAt?, hc, hpair]
  · apply hread hsymbol
    have hcd : Operator.ofSymbol? [c, d] = some op := by
      rw [← hsymbol, Operator.ofSymbol?_symbol]
    simp [Lexeme.operatorAt?, hcd]

theorem tokenize_word {name : List Char} (hstart : ∃ c ∈ name.head?, isNameStart c = true)
    (hchars : ∀ c ∈ name, isNameChar c = true) :
    tokenize (name ++ rest) = Token.ofName name :: tokenize rest := by
  obtain ⟨c, hhead, hc⟩ := hstart
  obtain ⟨cs, rfl⟩ := List.head?_eq_some_iff.mp hhead
  have hcs := (List.forall_mem_cons.mp hchars).2
  have hstop : ∀ d ∈ rest.head?, isNameChar d = false :=
    fun d hd => isNameChar_of_isBlank (hend d hd)
  rw [List.cons_append, tokenize_cons, Lexeme.first_of_isNameStart hc,
    takeWhile_of_run hcs hstop, dropWhile_of_run hcs hstop]
  rfl

theorem tokenize_natural {n : Nat} (hn : n ≤ Number.maxExact) :
    tokenize (Nat.toDigits 10 n ++ rest) = .literal (.num (.integer n)) :: tokenize rest := by
  have hdigits : ∀ c ∈ Nat.toDigits 10 n, c.isDigit = true :=
    fun c hc => Nat.isDigit_of_mem_toDigits (by decide) (by decide) hc
  have hpoint : '.' ∉ Nat.toDigits 10 n := fun hmem => absurd (hdigits _ hmem) (by decide)
  have htoken : NumberToken (Nat.toDigits 10 n) (some (.literal (.num (.integer n)))) := by
    apply NumberToken.finite (.whole hpoint)
    · rw [List.append_nil]
      exact Nat.toDigits_ne_nil
    · rw [decimalDouble, List.append_nil, Nat.ofDigitChars_ten_toDigits]
      exact Numeric.ofFloat?_natural hn
  obtain ⟨c, cs, heq⟩ := List.exists_cons_of_ne_nil (Nat.toDigits_ne_nil : Nat.toDigits 10 n ≠ [])
  rw [heq] at hdigits htoken ⊢
  obtain ⟨hc, hcs⟩ := List.forall_mem_cons.mp hdigits
  have hname := isNameChar_of_isDigit hc
  have hrun : ∀ d ∈ cs, isNumberChar d = true := by
    intro d hd
    rw [isNumberChar, hcs d hd, Bool.true_or]
  have hstop : ∀ d ∈ rest.head?, isNumberChar d = false :=
    fun d hd => IsSeparator.isNumberChar (Or.inl (hend d hd))
  have hfirst : Lexeme.first c (cs ++ rest) = (.number (c :: cs), rest) := by
    rw [Lexeme.first, isBlank_of_isNameChar hname, if_neg (ne_quote_of_isNameChar hname),
      Lexeme.operatorAt?_of_isNameChar hname, takeWhile_of_run hrun hstop,
      dropWhile_of_run hrun hstop, isNumberChar, hc]
    rfl
  rw [List.cons_append, tokenize_cons, hfirst, Lexeme.token?, ← numberToken_iff.mp htoken]
  rfl

/-- A spelling before a blank, or at the end of the text, is read as its token. -/
theorem tokenize_spelled {token : Token} {spelling : List Char} (h : Spelled token spelling) :
    tokenize (spelling ++ rest) = token :: tokenize rest := by
  cases h with
  | string hquote hbody => rw [tokenize_string hquote hbody, String.ofList_toList]
  | natural hn => exact tokenize_natural hend hn
  | true => exact tokenize_word hend ⟨'t', rfl, rfl⟩ (List.all_eq_true.mp rfl)
  | false => exact tokenize_word hend ⟨'f', rfl, rfl⟩ (List.all_eq_true.mp rfl)
  | null => exact tokenize_word hend ⟨'n', rfl, rfl⟩ (List.all_eq_true.mp rfl)
  | operator op => exact tokenize_symbol hend op
  | reference h =>
    rw [tokenize_word hend h.start h.names, Token.ofName,
      Token.keyword?_eq_none_iff.mpr h.keyword, String.ofList_toList]

end

/-- **Tokenizing undoes rendering.** -/
theorem tokenize_of_rendered {tokens : List Token} {text : List Char} (h : Rendered tokens text) :
    tokenize text = tokens := by
  induction h with
  | nil => exact tokenize_nil
  | @one token spelling h =>
    have hread := @tokenize_spelled [] nofun token spelling h
    rw [List.append_nil, tokenize_nil] at hread
    exact hread
  | @cons token tokens spelling gap text h hgap hblank hrest ih =>
    have hend : ∀ c ∈ (gap ++ text).head?, Text.isBlank c = true := by
      intro c hc
      obtain ⟨first, more, rfl⟩ := List.exists_cons_of_ne_nil hgap
      rw [← Option.some.inj hc]
      exact hblank first List.mem_cons_self
    rw [List.append_assoc, tokenize_spelled hend h, tokenize_gap fun c hc => .inl (hblank c hc), ih]

/-- A list of tokens with the largest natural number and a string of quotes, operators and
    braces. -/
def mixedTokens : List Token :=
  [.reference "inputs.n", .operator .ge, .literal (.num (.integer 9007199254740991)),
    .operator .eq, .literal (.str "\"\x7d\x7d >= it"), .literal .null]

def mixedText : List Char := "inputs.n >=  9007199254740991 ==\t'\"\x7d\x7d >= it' null".toList

theorem tokenize_of_rendered_mixed :
    Rendered mixedTokens mixedText ∧ tokenize mixedText = mixedTokens := by
  have hreference : IsReference "inputs.n".toList := by
    refine ⟨⟨'i', rfl, rfl⟩, List.all_eq_true.mp rfl, ?_, ?_, ?_⟩ <;> decide
  have hstring : Spelled (.literal (.str "\"\x7d\x7d >= it")) "'\"\x7d\x7d >= it'".toList :=
    .string (Or.inl rfl) (by decide)
  have hnumber : Spelled (.literal (.num (.integer 9007199254740991))) "9007199254740991".toList :=
    .natural (n := 9007199254740991) (by decide)
  have hblank : ∀ c ∈ " ".toList, Text.isBlank c = true := List.all_eq_true.mp rfl
  have hblanks : ∀ c ∈ "  ".toList, Text.isBlank c = true := List.all_eq_true.mp rfl
  have htab : ∀ c ∈ "\t".toList, Text.isBlank c = true := List.all_eq_true.mp rfl
  have h : Rendered mixedTokens mixedText := by
    refine .cons (.reference hreference) (by decide) hblank ?_
    refine .cons (.operator .ge) (by decide) hblanks ?_
    refine .cons hnumber (by decide) hblank ?_
    refine .cons (.operator .eq) (by decide) htab ?_
    refine .cons hstring (by decide) hblank ?_
    exact .one .null
  exact ⟨h, tokenize_of_rendered h⟩

end FlowDocs
