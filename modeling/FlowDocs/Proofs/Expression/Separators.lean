/-
  FlowDocs/Proofs/Expression/Separators.lean
  ==========================================
  **What separates tokens is read as nothing else.**

  A separator is a blank, or a character that no rule knows: no quote, no character of an
  operator and none of a name.  Between quotes it is a character like any other.  Everywhere
  else it ends the lexeme before it and is a lexeme without a token itself.

  The first lexeme of a text is therefore the first lexeme also of the text that goes on with
  a separator, unless it is a string without its closing quote (`Lexeme.first_append`).  By
  induction on the lexemes of the first part, a text is cut at a separator into two texts
  whose tokens are its tokens (`lexemes_append`), and how many separators there are, and
  which ones, shows in no token (`tokenize_separated`).
-/
import FlowDocs.Proofs.Expression.MaximalMunch
import Mathlib

namespace FlowDocs

/-! ### Separators and open quotes -/

/-- The characters that operators are written with. -/
def Operator.characters : List Char := ['+', '-', '*', '/', '%', '>', '<', '=', '!']

/-- A blank, or a character that no lexeme with a token can hold outside quotes. -/
def IsSeparator (c : Char) : Prop :=
  Text.isBlank c = true ∨
    (¬ (c = '\'' ∨ c = '"') ∧ c ∉ Operator.characters ∧ isNameChar c = false)

instance : DecidablePred IsSeparator := fun c =>
  inferInstanceAs (Decidable (Text.isBlank c = true ∨
    (¬ (c = '\'' ∨ c = '"') ∧ c ∉ Operator.characters ∧ isNameChar c = false)))

/-- The quote that is open after one more character: any quote opens a string, and only
    the same one closes it. -/
def quoteAfter : Option Char → Char → Option Char
  | none, c => if c = '\'' ∨ c = '"' then some c else none
  | some quote, c => if c = quote then none else some quote

/-- The quote that a text leaves open, read from the left. -/
def openQuote (text : List Char) : Option Char := text.foldl quoteAfter none

/-- A text of some parts in their order, with one separator or more between any two.  Only
    the last part may leave a quote open. -/
inductive Separated : List (List Char) → List Char → Prop
  | one {part : List Char} : Separated [part] part
  | cons {part gap text : List Char} {parts : List (List Char)} (hclosed : openQuote part = none)
      (hgap : gap ≠ []) (hseparators : ∀ c ∈ gap, IsSeparator c) (hrest : Separated parts text) :
      Separated (part :: parts) (part ++ gap ++ text)

theorem openQuote_cons {c : Char} (h : ¬ (c = '\'' ∨ c = '"')) (rest : List Char) :
    openQuote (c :: rest) = openQuote rest := by
  rw [openQuote, List.foldl_cons, quoteAfter, if_neg h]
  rfl

theorem openQuote_append {front : List Char} (h : ∀ c ∈ front, ¬ (c = '\'' ∨ c = '"'))
    (rest : List Char) : openQuote (front ++ rest) = openQuote rest := by
  induction front with
  | nil => rfl
  | cons c front ih =>
    obtain ⟨hc, hfront⟩ := List.forall_mem_cons.mp h
    rw [List.cons_append, openQuote_cons hc, ih hfront]

theorem openQuote_dropWhile {p : Char → Bool} (hp : ∀ c, p c = true → ¬ (c = '\'' ∨ c = '"'))
    (cs : List Char) : openQuote (cs.dropWhile p) = openQuote cs := by
  have hrun : ∀ c ∈ cs.takeWhile p, ¬ (c = '\'' ∨ c = '"') :=
    fun c hc => hp c (List.mem_takeWhile_imp hc)
  rw [← openQuote_append hrun, List.takeWhile_append_dropWhile]

theorem foldl_quoteAfter_body {quote : Char} {body : List Char} (h : quote ∉ body) :
    body.foldl quoteAfter (some quote) = some quote := by
  induction body with
  | nil => rfl
  | cons c body ih =>
    rw [List.mem_cons, not_or] at h
    rw [List.foldl_cons, quoteAfter, if_neg (Ne.symm h.1)]
    exact ih h.2

section
variable {quote : Char} {body : List Char} (hquote : quote = '\'' ∨ quote = '"')
  (hbody : quote ∉ body)
include hquote hbody

theorem openQuote_unclosed : openQuote (quote :: body) = some quote := by
  rw [openQuote, List.foldl_cons, quoteAfter, if_pos hquote, foldl_quoteAfter_body hbody]

theorem openQuote_closed (rest : List Char) :
    openQuote (quote :: (body ++ quote :: rest)) = openQuote rest := by
  have hopen := openQuote_unclosed hquote hbody
  rw [openQuote] at hopen
  rw [openQuote, ← List.cons_append, List.foldl_append, hopen, List.foldl_cons, quoteAfter,
    if_pos rfl]
  rfl

end

/-! ### What a separator ends -/

theorem Operator.mem_characters {op : Operator} {c : Char} (h : c ∈ op.symbol) :
    c ∈ characters := by
  have hsubset : op.symbol ⊆ characters := by
    cases op <;> decide
  exact hsubset h

theorem Operator.of_mem_characters {c : Char} (h : c ∈ characters) :
    Text.isBlank c = false ∧ ¬ (c = '\'' ∨ c = '"') := by
  fin_cases h <;> decide

namespace IsSeparator

variable {s : Char} (h : IsSeparator s)
include h

theorem not_quote : ¬ (s = '\'' ∨ s = '"') := by
  rcases h with hblank | ⟨hquote, -⟩
  · rintro (rfl | rfl) <;> cases hblank
  · exact hquote

theorem isNameChar : isNameChar s = false := by
  rcases h with hblank | ⟨-, -, hname⟩
  · exact isNameChar_of_isBlank hblank
  · exact hname

theorem isNumberChar : isNumberChar s = false := by
  rw [Bool.eq_false_iff]
  exact mt isNameChar_of_isNumberChar (Bool.eq_false_iff.mp h.isNameChar)

theorem isNameStart : isNameStart s = false := by
  rw [Bool.eq_false_iff]
  exact mt isNameChar_of_isNameStart (Bool.eq_false_iff.mp h.isNameChar)

theorem not_mem_characters : s ∉ Operator.characters := by
  rcases h with hblank | ⟨-, hother, -⟩
  · intro hmem
    rw [(Operator.of_mem_characters hmem).1] at hblank
    cases hblank
  · exact hother

/-- No operator has a separator in its symbol. -/
theorem ofSymbol?_eq_none {cs : List Char} (hmem : s ∈ cs) : Operator.ofSymbol? cs = none := by
  cases hop : Operator.ofSymbol? cs with
  | none => rfl
  | some op =>
    rw [Operator.eq_symbol_of_ofSymbol? hop] at hmem
    exact absurd (Operator.mem_characters hmem) h.not_mem_characters

end IsSeparator

section
variable {p : Char → Bool} {s : Char} (hp : p s = false) (cs b : List Char)
include hp

theorem takeWhile_before : (cs ++ s :: b).takeWhile p = cs.takeWhile p := by
  induction cs with
  | nil => rw [List.nil_append, List.takeWhile_cons, hp]; rfl
  | cons c cs ih => rw [List.cons_append, List.takeWhile_cons, List.takeWhile_cons, ih]

theorem dropWhile_before : (cs ++ s :: b).dropWhile p = cs.dropWhile p ++ s :: b := by
  induction cs with
  | nil => rw [List.nil_append, List.dropWhile_cons, hp]; rfl
  | cons c cs ih =>
    rw [List.cons_append, List.dropWhile_cons, List.dropWhile_cons, ih]
    split <;> rfl

end

namespace Lexeme

/-! ### The first lexeme before a separator -/

theorem first_of_quote {quote : Char} (hquote : quote = '\'' ∨ quote = '"') (rest : List Char) :
    first quote rest = quotedAt quote rest := by
  rcases hquote with rfl | rfl <;> rfl

theorem operatorAt?_spells {c : Char} {rest after : List Char} {op : Operator}
    (h : operatorAt? c rest = some (op, after)) : c :: rest = op.symbol ++ after := by
  cases rest with
  | nil =>
    obtain ⟨found, hfound, heq⟩ := Option.map_eq_some_iff.mp h
    cases heq
    rw [← Operator.eq_symbol_of_ofSymbol? hfound]
    rfl
  | cons d rest =>
    cases hpair : Operator.ofSymbol? [c, d] with
    | some found =>
      simp only [operatorAt?, hpair] at h
      cases h
      rw [← Operator.eq_symbol_of_ofSymbol? hpair]
      rfl
    | none =>
      simp only [operatorAt?, hpair] at h
      obtain ⟨found, hfound, heq⟩ := Option.map_eq_some_iff.mp h
      cases heq
      rw [← Operator.eq_symbol_of_ofSymbol? hfound]
      rfl

section
variable {s : Char} (hs : IsSeparator s) (b : List Char)
include hs

/-- Half an operator before a separator is no operator, and stays half. -/
theorem operatorAt?_append (c : Char) (rest : List Char) :
    operatorAt? c (rest ++ s :: b) =
      (operatorAt? c rest).map fun found => (found.1, found.2 ++ s :: b) := by
  cases rest with
  | nil =>
    have hpair : Operator.ofSymbol? [c, s] = none := hs.ofSymbol?_eq_none (by simp)
    simp [operatorAt?, hpair, Function.comp_def]
  | cons d rest =>
    cases hpair : Operator.ofSymbol? [c, d] with
    | some op => simp [operatorAt?, hpair]
    | none => simp [operatorAt?, hpair, Function.comp_def]

theorem first_append {c : Char} {rest : List Char} (h : openQuote (c :: rest) = none) :
    first c (rest ++ s :: b) = ((first c rest).1, (first c rest).2 ++ s :: b) := by
  by_cases hquote : c = '\'' ∨ c = '"'
  · -- a string ends at its closing quote, which the text before the separator must have
    by_cases hmem : c ∈ rest
    · obtain ⟨body, after, rfl, hbody⟩ := List.eq_append_cons_of_mem hmem
      rw [first_of_quote hquote, first_of_quote hquote, List.append_assoc, List.cons_append,
        quotedAt_closed hbody, quotedAt_closed hbody]
    · rw [openQuote_unclosed hquote hmem] at h
      cases h
  · -- no other rule reads past a separator, whether it looks one character ahead or runs on
    rw [first, first, operatorAt?_append hs, if_neg hquote, if_neg hquote,
      takeWhile_before hs.isNumberChar, dropWhile_before hs.isNumberChar,
      takeWhile_before hs.isNameChar, dropWhile_before hs.isNameChar]
    cases operatorAt? c rest with
    | some found =>
      rw [Option.map_some]
      split <;> rfl
    | none =>
      rw [Option.map_none]
      dsimp only
      split
      · rfl
      · split
        · rfl
        · split <;> rfl

end

/-- Closed quotes stay closed when the first lexeme is taken off. -/
theorem openQuote_first {c : Char} {rest : List Char} (h : openQuote (c :: rest) = none) :
    openQuote (first c rest).2 = none := by
  by_cases hquote : c = '\'' ∨ c = '"'
  · by_cases hmem : c ∈ rest
    · obtain ⟨body, after, rfl, hbody⟩ := List.eq_append_cons_of_mem hmem
      rw [openQuote_closed hquote hbody] at h
      rw [first_of_quote hquote, quotedAt_closed hbody]
      exact h
    · rw [openQuote_unclosed hquote hmem] at h
      cases h
  · -- all that the other lexemes take off is free of quotes
    have hrest : openQuote rest = none := by
      rw [← openQuote_cons hquote]
      exact h
    rw [first, if_neg hquote]
    split
    · exact hrest
    · cases hfound : operatorAt? c rest with
      | some found =>
        have hsymbol : ∀ d ∈ found.1.symbol, ¬ (d = '\'' ∨ d = '"') :=
          fun d hd => (Operator.of_mem_characters (Operator.mem_characters hd)).2
        rw [← openQuote_append hsymbol, ← operatorAt?_spells hfound]
        exact h
      | none =>
        dsimp only
        split
        · rw [openQuote_dropWhile]
          · exact hrest
          · exact fun d hd => ne_quote_of_isNameChar (isNameChar_of_isNumberChar hd)
        · split
          · rw [openQuote_dropWhile fun d hd => ne_quote_of_isNameChar hd]
            exact hrest
          · exact hrest

end Lexeme

/-! ### Cutting a text at separators -/

theorem Lexeme.first_separator {s : Char} (hs : IsSeparator s) (b : List Char) :
    (first s b).1.token? = none ∧ (first s b).2 = b := by
  have hsingle : Operator.ofSymbol? [s] = none := hs.ofSymbol?_eq_none (by simp)
  have hop : operatorAt? s b = none := by
    cases b with
    | nil => simp [operatorAt?, hsingle]
    | cons d b =>
      have hpair : Operator.ofSymbol? [s, d] = none := hs.ofSymbol?_eq_none (by simp)
      simp [operatorAt?, hsingle, hpair]
  rw [first, if_neg hs.not_quote, hop, hs.isNumberChar, hs.isNameStart]
  split <;> exact ⟨rfl, rfl⟩

section
variable {s : Char} (hs : IsSeparator s) (b : List Char)
include hs

theorem lexemes_append {a : List Char} (h : openQuote a = none) :
    lexemes (a ++ s :: b) = lexemes a ++ (Lexeme.first s b).1 :: lexemes b := by
  induction a using lexemes.induct with
  | case1 => rw [List.nil_append, lexemes, lexemes, (Lexeme.first_separator hs b).2]; rfl
  | case2 c rest ih =>
    rw [List.cons_append, lexemes, Lexeme.first_append hs b h, ih (Lexeme.openQuote_first h),
      lexemes, List.cons_append]

theorem tokenize_append {a : List Char} (h : openQuote a = none) :
    tokenize (a ++ s :: b) = tokenize a ++ tokenize b := by
  rw [tokenize, lexemes_append hs b h, List.filterMap_append,
    List.filterMap_cons_none (Lexeme.first_separator hs b).1]
  rfl

end

theorem tokenize_gap {gap : List Char} (h : ∀ c ∈ gap, IsSeparator c) (text : List Char) :
    tokenize (gap ++ text) = tokenize text := by
  induction gap with
  | nil => rfl
  | cons c gap ih =>
    obtain ⟨hc, hgap⟩ := List.forall_mem_cons.mp h
    rw [List.cons_append, tokenize_cons, (Lexeme.first_separator hc _).1,
      (Lexeme.first_separator hc _).2, ih hgap]
    rfl

theorem Separated.tokenize {parts : List (List Char)} {text : List Char}
    (h : Separated parts text) : tokenize text = parts.flatMap FlowDocs.tokenize := by
  induction h with
  | one => rw [List.flatMap_singleton]
  | cons hclosed hgap hseparators hrest ih =>
    obtain ⟨c, gap, rfl⟩ := List.exists_cons_of_ne_nil hgap
    obtain ⟨hc, hgap⟩ := List.forall_mem_cons.mp hseparators
    rw [List.append_assoc, List.cons_append, tokenize_append hc _ hclosed, tokenize_gap hgap, ih,
      List.flatMap_cons]

/-- **Separators only separate.**  A text is cut at a separator outside quotes into two texts
    whose tokens, one list after the other, are its tokens.  So the tokens of a text that
    consists of some parts with separators between them are those of the parts, whichever
    separators there are and however many. -/
theorem tokenize_separated :
    (∀ (a b : List Char) (c : Char), IsSeparator c → openQuote a = none →
      tokenize (a ++ c :: b) = tokenize a ++ tokenize b) ∧
    (∀ (parts : List (List Char)) (text : List Char), Separated parts text →
      tokenize text = parts.flatMap tokenize) :=
  ⟨fun _ b _ hc ha => tokenize_append hc b ha, fun _ _ h => h.tokenize⟩

/-- Half an operator, a number with two points and strings that hold separators. -/
def brokenParts : List (List Char) :=
  ["a[0]>".toList, "=.5.2".toList, "'b ('".toList, "\"c )\u3000".toList]

def brokenText : List Char := "a[0]> \t=.5.2)(é'b ('\u3000\"c )\u3000".toList

theorem tokenize_separated_broken :
    IsSeparator '(' ∧ openQuote "a[0]>".toList = none ∧
      tokenize "a[0]>(= 1".toList = tokenize "a[0]>".toList ++ tokenize "= 1".toList ∧
      Separated brokenParts brokenText ∧
      tokenize brokenText = brokenParts.flatMap tokenize := by
  have hbracket : IsSeparator '(' := by decide
  have hopen : openQuote "a[0]>".toList = none := by decide
  have hblanks : ∀ c ∈ [' ', '\t'], IsSeparator c := by
    intro c hc
    fin_cases hc <;> decide
  have hunknown : ∀ c ∈ [')', '(', 'é'], IsSeparator c := by
    intro c hc
    fin_cases hc <;> decide
  have hwide : ∀ c ∈ ['\u3000'], IsSeparator c := by
    intro c hc
    fin_cases hc
    decide
  have h : Separated brokenParts brokenText := by
    refine .cons hopen (by decide) hblanks ?_
    refine .cons (by decide) (by decide) hunknown ?_
    exact .cons (by decide) (by decide) hwide .one
  exact ⟨hbracket, hopen, tokenize_separated.1 _ _ '(' hbracket hopen, h,
    tokenize_separated.2 _ _ h⟩

end FlowDocs
