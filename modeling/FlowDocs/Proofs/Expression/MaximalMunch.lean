/-
  FlowDocs/Proofs/Expression/MaximalMunch.lean
  ============================================
  **The lexical grammar of expressions.**

  Seven rules cut a text into segments.  At every place the first of them that applies
  takes its segment, as long as it can be:

      blank    one blank
      quoted   a quote, and all up to the next such quote or the end of the text
      pair     an operator of two characters
      single   an operator of one character
      number   digits and points
      name     an ASCII letter, `_` or `$`, then those, digits, points and brackets
      other    any one character

  The grammar says of a segment and the text after it whether a rule reads them, and says
  nothing of how one is found.  A text has one segmentation only, and the tokens of the text
  are those of its segments (`tokenize_maximal_munch`).
-/
import FlowDocs.Expression.Lexeme
import FlowDocs.Proofs.Expression.Lexing
import FlowDocs.Proofs.Numeric.Decimals
import Mathlib

namespace FlowDocs

/-! ### The grammar -/

/-- A stretch of a text and the token it stands for, if it stands for any. -/
structure Segment where
  chars : List Char
  token? : Option Token
deriving DecidableEq, Repr

/-- A run of digits and points, its digits before the first point and those between the
    first and the second. -/
inductive Numeral : List Char → List Char → List Char → Prop
  | whole {whole : List Char} (hwhole : '.' ∉ whole) : Numeral whole whole []
  | point {whole fraction : List Char} (hwhole : '.' ∉ whole) (hfraction : '.' ∉ fraction) :
      Numeral (whole ++ '.' :: fraction) whole fraction
  | beyond {whole fraction more : List Char} (hwhole : '.' ∉ whole)
      (hfraction : '.' ∉ fraction) :
      Numeral (whole ++ '.' :: (fraction ++ '.' :: more)) whole fraction

/-- The double nearest to a decimal. -/
def decimalDouble (whole fraction : List Char) : Float :=
  Float.ofScientific (Nat.ofDigitChars 10 (whole ++ fraction) 0) true fraction.length

/-- What a run of digits and points stands for: the number before its second point, if
    there is a digit and the number is finite as a double. -/
inductive NumberToken (run : List Char) : Option Token → Prop
  | digitless (h : Numeral run [] []) : NumberToken run none
  | infinite {whole fraction : List Char} (h : Numeral run whole fraction)
      (hdigit : whole ++ fraction ≠ []) (hinf : (decimalDouble whole fraction).isFinite = false) :
      NumberToken run none
  | finite {whole fraction : List Char} {n : Number} (h : Numeral run whole fraction)
      (hdigit : whole ++ fraction ≠ [])
      (hn : Number.ofFloat? (decimalDouble whole fraction) = some n) :
      NumberToken run (some (.literal (.num n)))

/-- What a name stands for: `true`, `false` and `null` are values, any other name is a
    reference. -/
inductive NameToken : List Char → Token → Prop
  | true : NameToken "true".toList (.literal (.bool true))
  | false : NameToken "false".toList (.literal (.bool false))
  | null : NameToken "null".toList (.literal .null)
  | reference {name : List Char} (htrue : name ≠ "true".toList) (hfalse : name ≠ "false".toList)
      (hnull : name ≠ "null".toList) : NameToken name (.reference (String.ofList name))

inductive Rule where
  | blank
  | quoted
  | pair
  | single
  | number
  | name
  | other
deriving DecidableEq, Repr

/-- A rule reads a segment, and the text that is left after it. -/
inductive Rule.Reads : Rule → List Char → Option Token → List Char → Prop
  | blank {c : Char} {rest : List Char} (h : Text.isBlank c = true) :
      Reads .blank [c] none rest
  | closed {quote : Char} {body rest : List Char} (hquote : quote = '\'' ∨ quote = '"')
      (hbody : quote ∉ body) :
      Reads .quoted (quote :: body ++ [quote]) (some (.literal (.str (String.ofList body)))) rest
  | unclosed {quote : Char} {body : List Char} (hquote : quote = '\'' ∨ quote = '"')
      (hbody : quote ∉ body) :
      Reads .quoted (quote :: body) (some (.literal (.str (String.ofList body)))) []
  | pair {op : Operator} {c d : Char} {rest : List Char} (h : op.symbol = [c, d]) :
      Reads .pair [c, d] (some (.operator op)) rest
  | single {op : Operator} {c : Char} {rest : List Char} (h : op.symbol = [c]) :
      Reads .single [c] (some (.operator op)) rest
  | number {run rest : List Char} {token? : Option Token} (hne : run ≠ [])
      (hrun : ∀ c ∈ run, isNumberChar c = true)
      (hend : ∀ c ∈ rest.head?, isNumberChar c = false) (htoken : NumberToken run token?) :
      Reads .number run token? rest
  | name {c : Char} {cs rest : List Char} {token : Token} (hstart : isNameStart c = true)
      (hchars : ∀ d ∈ cs, isNameChar d = true) (hend : ∀ d ∈ rest.head?, isNameChar d = false)
      (htoken : NameToken (c :: cs) token) : Reads .name (c :: cs) (some token) rest
  | other {c : Char} {rest : List Char} : Reads .other [c] none rest

namespace Rule

/-- The rules in the order in which they are tried. -/
def inOrder : List Rule := [.blank, .quoted, .pair, .single, .number, .name, .other]

def Applies (rule : Rule) (text : List Char) : Prop :=
  ∃ chars token? rest, text = chars ++ rest ∧ rule.Reads chars token? rest

end Rule

/-- The first of some rules that applies to a text takes the segment. -/
inductive Munch (text : List Char) : List Rule → Segment → List Char → Prop
  | applies {rule : Rule} {rules : List Rule} {segment : Segment} {rest : List Char}
      (htext : text = segment.chars ++ rest)
      (hreads : rule.Reads segment.chars segment.token? rest) :
      Munch text (rule :: rules) segment rest
  | skips {rule : Rule} {rules : List Rule} {segment : Segment} {rest : List Char}
      (hnot : ¬ rule.Applies text) (h : Munch text rules segment rest) :
      Munch text (rule :: rules) segment rest

inductive Segmented : List Char → List Segment → Prop
  | nil : Segmented [] []
  | cons {text rest : List Char} {segment : Segment} {segments : List Segment}
      (h : Munch text Rule.inOrder segment rest) (hrest : Segmented rest segments) :
      Segmented text (segment :: segments)

/-- A text that is a name and stands for no value. -/
structure IsReference (chars : List Char) : Prop where
  start : ∃ c ∈ chars.head?, isNameStart c = true
  names : ∀ c ∈ chars, isNameChar c = true
  keyword : chars ≠ "true".toList ∧ chars ≠ "false".toList ∧ chars ≠ "null".toList

/-- The values a literal can stand for. -/
inductive IsLiteral : Json → Prop
  | null : IsLiteral .null
  | bool (b : Bool) : IsLiteral (.bool b)
  | str (s : String) : IsLiteral (.str s)
  | num {n : Number} (h : n.FiniteNonneg) : IsLiteral (.num n)

/-! ### Runs of characters -/

theorem takeWhile_of_run {p : Char → Bool} {run rest : List Char} (hrun : ∀ c ∈ run, p c = true)
    (hend : ∀ c ∈ rest.head?, p c = false) : (run ++ rest).takeWhile p = run := by
  have hrest : rest.takeWhile p = [] := by
    cases rest with
    | nil => rfl
    | cons c rest => rw [List.takeWhile_cons, hend c rfl]; rfl
  rw [List.takeWhile_append_of_pos hrun, hrest, List.append_nil]

theorem dropWhile_of_run {p : Char → Bool} {run rest : List Char} (hrun : ∀ c ∈ run, p c = true)
    (hend : ∀ c ∈ rest.head?, p c = false) : (run ++ rest).dropWhile p = rest := by
  rw [List.dropWhile_append_of_pos hrun]
  cases rest with
  | nil => rfl
  | cons c rest => rw [List.dropWhile_cons, hend c rfl]; rfl

theorem head?_dropWhile (p : Char → Bool) (cs : List Char) :
    ∀ c ∈ (cs.dropWhile p).head?, p c = false := by
  intro c hc
  have h := List.head?_dropWhile_not p cs
  rw [Option.mem_def.mp hc] at h
  exact h

theorem all_ne_of_not_mem {mark : Char} {cs : List Char} (h : mark ∉ cs) :
    ∀ c ∈ cs, decide (c ≠ mark) = true := by
  intro c hc
  rw [decide_eq_true_iff]
  rintro rfl
  exact h hc

theorem takeWhile_of_not_mem {mark : Char} {body : List Char} (h : mark ∉ body)
    (rest : List Char) : (body ++ mark :: rest).takeWhile (· ≠ mark) = body :=
  takeWhile_of_run (all_ne_of_not_mem h) (by simp)

theorem dropWhile_of_not_mem {mark : Char} {body : List Char} (h : mark ∉ body)
    (rest : List Char) : (body ++ mark :: rest).dropWhile (· ≠ mark) = mark :: rest :=
  dropWhile_of_run (all_ne_of_not_mem h) (by simp)

/-! ### Quoted segments -/

namespace Lexeme

theorem quotedAt_closed {quote : Char} {body : List Char} (h : quote ∉ body) (rest : List Char) :
    quotedAt quote (body ++ quote :: rest) = (.quoted quote body true, rest) := by
  simp only [quotedAt, takeWhile_of_not_mem h, dropWhile_of_not_mem h]

theorem quotedAt_unclosed {quote : Char} {body : List Char} (h : quote ∉ body) :
    quotedAt quote body = (.quoted quote body false, []) := by
  have hdrop := List.dropWhile_eq_nil_iff.mpr (all_ne_of_not_mem h)
  rw [quotedAt, hdrop]

end Lexeme

/-! ### Numbers -/

theorem Numeral.splitNumber {run whole fraction : List Char} (h : Numeral run whole fraction) :
    Token.splitNumber run = (whole, fraction) := by
  cases h with
  | whole hwhole =>
    have htake := List.takeWhile_eq_self_iff.mpr (all_ne_of_not_mem hwhole)
    have hdrop := List.dropWhile_eq_nil_iff.mpr (all_ne_of_not_mem hwhole)
    rw [Token.splitNumber, htake, hdrop]
    rfl
  | point hwhole hfraction =>
    have htake := List.takeWhile_eq_self_iff.mpr (all_ne_of_not_mem hfraction)
    rw [Token.splitNumber, takeWhile_of_not_mem hwhole, dropWhile_of_not_mem hwhole,
      List.drop_one, List.tail_cons, htake]
  | beyond hwhole hfraction =>
    rw [Token.splitNumber, takeWhile_of_not_mem hwhole, dropWhile_of_not_mem hwhole,
      List.drop_one, List.tail_cons, takeWhile_of_not_mem hfraction]

theorem exists_numeral (run : List Char) : ∃ whole fraction, Numeral run whole fraction := by
  by_cases hpoint : '.' ∈ run
  · obtain ⟨whole, after, rfl, hwhole⟩ := List.eq_append_cons_of_mem hpoint
    by_cases hsecond : '.' ∈ after
    · obtain ⟨fraction, more, rfl, hfraction⟩ := List.eq_append_cons_of_mem hsecond
      exact ⟨whole, fraction, .beyond hwhole hfraction⟩
    · exact ⟨whole, after, .point hwhole hsecond⟩
  · exact ⟨run, [], .whole hpoint⟩

theorem Token.digitsValue_eq_ofDigitChars (digits : List Char) :
    digitsValue digits = Nat.ofDigitChars 10 digits 0 := by
  rw [digitsValue, Nat.ofDigitChars_eq_foldl]
  congr 1
  funext n c
  rw [Nat.mul_comm]
  rfl

theorem numberToken_iff {run : List Char} {token? : Option Token} :
    NumberToken run token? ↔ token? = Token.ofNumberRun? run := by
  have hvalue : ∀ {whole fraction : List Char}, Numeral run whole fraction →
      whole ++ fraction ≠ [] → Token.ofNumberRun? run
        = (Number.ofFloat? (decimalDouble whole fraction)).map fun n => .literal (.num n) := by
    intro whole fraction h hdigit
    rw [Token.ofNumberRun?, h.splitNumber, decimalDouble, ← Token.digitsValue_eq_ofDigitChars]
    exact if_neg hdigit
  constructor
  · intro h
    cases h with
    | digitless h =>
      rw [Token.ofNumberRun?, h.splitNumber]
      rfl
    | infinite h hdigit hinf =>
      rw [hvalue h hdigit, (Numeric.ofFloat?_eq_none_iff _).mpr hinf]
      rfl
    | finite h hdigit hn =>
      rw [hvalue h hdigit, hn]
      rfl
  · rintro rfl
    obtain ⟨whole, fraction, h⟩ := exists_numeral run
    by_cases hdigit : whole ++ fraction = []
    · obtain ⟨rfl, rfl⟩ := List.append_eq_nil_iff.mp hdigit
      rw [Token.ofNumberRun?, h.splitNumber]
      exact .digitless h
    · rw [hvalue h hdigit]
      cases hn : Number.ofFloat? (decimalDouble whole fraction) with
      | none => exact .infinite h hdigit ((Numeric.ofFloat?_eq_none_iff _).mp hn)
      | some n => exact .finite h hdigit hn

/-! ### Names -/

theorem Token.keyword?_eq_none_iff {name : List Char} : keyword? name = none ↔
    name ≠ "true".toList ∧ name ≠ "false".toList ∧ name ≠ "null".toList := by
  change (if name = "true".toList then some (Json.bool true)
    else if name = "false".toList then some (Json.bool false)
    else if name = "null".toList then some Json.null else none) = none ↔ _
  constructor
  · intro h
    refine ⟨?_, ?_, ?_⟩
    · rintro rfl
      cases h
    · rintro rfl
      cases h
    · rintro rfl
      cases h
  · rintro ⟨htrue, hfalse, hnull⟩
    rw [if_neg htrue, if_neg hfalse, if_neg hnull]

theorem nameToken_iff {name : List Char} {token : Token} :
    NameToken name token ↔ token = Token.ofName name := by
  constructor
  · intro h
    cases h with
    | true => rfl
    | false => rfl
    | null => rfl
    | reference htrue hfalse hnull =>
      rw [Token.ofName, Token.keyword?_eq_none_iff.mpr ⟨htrue, hfalse, hnull⟩]
  · rintro rfl
    by_cases htrue : name = "true".toList
    · subst htrue
      exact .true
    · by_cases hfalse : name = "false".toList
      · subst hfalse
        exact .false
      · by_cases hnull : name = "null".toList
        · subst hnull
          exact .null
        · rw [Token.ofName, Token.keyword?_eq_none_iff.mpr ⟨htrue, hfalse, hnull⟩]
          exact .reference htrue hfalse hnull

/-! ### What each rule reads -/

def Lexeme.segment (lexeme : Lexeme) : Segment := ⟨lexeme.text, lexeme.token?⟩

namespace Rule

/-- The lexeme that a rule finds at the front of the text `c :: cs`. -/
def lexeme? (rule : Rule) (c : Char) (cs : List Char) : Option (Lexeme × List Char) :=
  match rule with
  | .blank => if Text.isBlank c then some (.blank c, cs) else none
  | .quoted => if c = '\'' ∨ c = '"' then some (Lexeme.quotedAt c cs) else none
  | .pair =>
    match cs with
    | [] => none
    | d :: rest => (Operator.ofSymbol? [c, d]).map fun op => (.operator op, rest)
  | .single => (Operator.ofSymbol? [c]).map fun op => (.operator op, cs)
  | .number =>
    if isNumberChar c then
      some (.number (c :: cs.takeWhile isNumberChar), cs.dropWhile isNumberChar)
    else none
  | .name =>
    if isNameStart c then some (.name (c :: cs.takeWhile isNameChar), cs.dropWhile isNameChar)
    else none
  | .other => some (.unknown c, cs)

/-- The front of a text is what the rule reads exactly if it is what the rule finds. -/
def Finds (rule : Rule) : Prop :=
  ∀ (c : Char) (cs chars : List Char) (token? : Option Token) (rest : List Char),
    (c :: cs = chars ++ rest ∧ rule.Reads chars token? rest) ↔
      ∃ lexeme, rule.lexeme? c cs = some (lexeme, rest) ∧ lexeme.text = chars ∧
        lexeme.token? = token?

theorem finds_blank : Rule.blank.Finds := by
  intro c cs chars token? rest
  constructor
  · rintro ⟨htext, hreads⟩
    cases hreads with
    | @blank d _ h =>
      obtain ⟨rfl, rfl⟩ : c = d ∧ cs = rest := by simpa using htext
      exact ⟨.blank c, if_pos h, rfl, rfl⟩
  · rintro ⟨lexeme, hfound, rfl, rfl⟩
    obtain ⟨hblank, hfound⟩ := Option.ite_none_right_eq_some.mp hfound
    cases hfound
    exact ⟨rfl, .blank hblank⟩

theorem finds_quoted : Rule.quoted.Finds := by
  intro c cs chars token? rest
  constructor
  · rintro ⟨htext, hreads⟩
    cases hreads with
    | @closed quote body _ hquote hbody =>
      obtain ⟨rfl, rfl⟩ : c = quote ∧ cs = body ++ quote :: rest := by simpa using htext
      refine ⟨.quoted c body true, ?_, rfl, rfl⟩
      rw [lexeme?, if_pos hquote, Lexeme.quotedAt_closed hbody]
    | @unclosed quote body hquote hbody =>
      obtain ⟨rfl, rfl⟩ : c = quote ∧ cs = body := by simpa using htext
      refine ⟨.quoted c cs false, ?_, by simp [Lexeme.text], rfl⟩
      rw [lexeme?, if_pos hquote, Lexeme.quotedAt_unclosed hbody]
  · rintro ⟨lexeme, hfound, rfl, rfl⟩
    obtain ⟨hquote, hfound⟩ := Option.ite_none_right_eq_some.mp hfound
    have hfound := Option.some.inj hfound
    by_cases hmem : c ∈ cs
    · obtain ⟨body, after, rfl, hbody⟩ := List.eq_append_cons_of_mem hmem
      rw [Lexeme.quotedAt_closed hbody] at hfound
      cases hfound
      refine ⟨?_, .closed hquote hbody⟩
      simp [Lexeme.text]
    · rw [Lexeme.quotedAt_unclosed hmem] at hfound
      cases hfound
      have htext : (Lexeme.quoted c cs false).text = c :: cs := by simp [Lexeme.text]
      rw [htext, List.append_nil]
      exact ⟨rfl, .unclosed hquote hmem⟩

theorem finds_pair : Rule.pair.Finds := by
  intro c cs chars token? rest
  constructor
  · rintro ⟨htext, hreads⟩
    cases hreads with
    | @pair op first second _ h =>
      obtain ⟨rfl, rfl⟩ : c = first ∧ cs = second :: rest := by simpa using htext
      have hop : Operator.ofSymbol? [c, second] = some op := by
        rw [← h, Operator.ofSymbol?_symbol]
      exact ⟨.operator op, Option.map_eq_some_iff.mpr ⟨op, hop, rfl⟩, h, rfl⟩
  · rintro ⟨lexeme, hfound, rfl, rfl⟩
    cases cs with
    | nil => cases hfound
    | cons d cs =>
      obtain ⟨op, hop, hfound⟩ := Option.map_eq_some_iff.mp hfound
      have hsymbol := Operator.eq_symbol_of_ofSymbol? hop
      cases hfound
      have htext : (Lexeme.operator op).text = [c, d] := hsymbol.symm
      rw [htext]
      exact ⟨rfl, .pair hsymbol.symm⟩

theorem finds_single : Rule.single.Finds := by
  intro c cs chars token? rest
  constructor
  · rintro ⟨htext, hreads⟩
    cases hreads with
    | @single op first _ h =>
      obtain ⟨rfl, rfl⟩ : c = first ∧ cs = rest := by simpa using htext
      have hop : Operator.ofSymbol? [c] = some op := by
        rw [← h, Operator.ofSymbol?_symbol]
      exact ⟨.operator op, Option.map_eq_some_iff.mpr ⟨op, hop, rfl⟩, h, rfl⟩
  · rintro ⟨lexeme, hfound, rfl, rfl⟩
    obtain ⟨op, hop, hfound⟩ := Option.map_eq_some_iff.mp hfound
    have hsymbol := Operator.eq_symbol_of_ofSymbol? hop
    cases hfound
    have htext : (Lexeme.operator op).text = [c] := hsymbol.symm
    rw [htext]
    exact ⟨rfl, .single hsymbol.symm⟩

theorem finds_number : Rule.number.Finds := by
  intro c cs chars token? rest
  constructor
  · rintro ⟨htext, hreads⟩
    cases hreads with
    | number hne hrun hend htoken =>
      obtain ⟨first, run, rfl⟩ := List.exists_cons_of_ne_nil hne
      obtain ⟨hfirst, hmore⟩ := List.forall_mem_cons.mp hrun
      obtain ⟨rfl, rfl⟩ : c = first ∧ cs = run ++ rest := by simpa using htext
      refine ⟨.number (c :: run), ?_, rfl, (numberToken_iff.mp htoken).symm⟩
      rw [lexeme?, if_pos hfirst, takeWhile_of_run hmore hend, dropWhile_of_run hmore hend]
  · rintro ⟨lexeme, hfound, rfl, rfl⟩
    obtain ⟨hc, hfound⟩ := Option.ite_none_right_eq_some.mp hfound
    cases hfound
    refine ⟨?_, .number (List.cons_ne_nil _ _) ?_ (head?_dropWhile _ _) (numberToken_iff.mpr rfl)⟩
    · rw [Lexeme.text, List.cons_append, List.takeWhile_append_dropWhile]
    · exact List.forall_mem_cons.mpr ⟨hc, fun d hd => List.mem_takeWhile_imp hd⟩

theorem finds_name : Rule.name.Finds := by
  intro c cs chars token? rest
  constructor
  · rintro ⟨htext, hreads⟩
    cases hreads with
    | @name first run _ token hstart hchars hend htoken =>
      obtain ⟨rfl, rfl⟩ : c = first ∧ cs = run ++ rest := by simpa using htext
      refine ⟨.name (c :: run), ?_, rfl, congrArg some (nameToken_iff.mp htoken).symm⟩
      rw [lexeme?, if_pos hstart, takeWhile_of_run hchars hend, dropWhile_of_run hchars hend]
  · rintro ⟨lexeme, hfound, rfl, rfl⟩
    obtain ⟨hc, hfound⟩ := Option.ite_none_right_eq_some.mp hfound
    cases hfound
    refine ⟨?_, .name hc ?_ (head?_dropWhile _ _) (nameToken_iff.mpr rfl)⟩
    · rw [Lexeme.text, List.cons_append, List.takeWhile_append_dropWhile]
    · exact fun d hd => List.mem_takeWhile_imp hd

theorem finds_other : Rule.other.Finds := by
  intro c cs chars token? rest
  constructor
  · rintro ⟨htext, hreads⟩
    cases hreads with
    | @other d _ =>
      obtain ⟨rfl, rfl⟩ : c = d ∧ cs = rest := by simpa using htext
      exact ⟨.unknown c, rfl, rfl, rfl⟩
  · rintro ⟨lexeme, hfound, rfl, rfl⟩
    cases hfound
    exact ⟨rfl, .other⟩

theorem finds (rule : Rule) : rule.Finds := by
  cases rule with
  | blank => exact finds_blank
  | quoted => exact finds_quoted
  | pair => exact finds_pair
  | single => exact finds_single
  | number => exact finds_number
  | name => exact finds_name
  | other => exact finds_other

theorem applies_iff (rule : Rule) (c : Char) (cs : List Char) :
    rule.Applies (c :: cs) ↔ rule.lexeme? c cs ≠ none := by
  constructor
  · rintro ⟨chars, token?, rest, h⟩
    obtain ⟨lexeme, hfound, -⟩ := (rule.finds c cs chars token? rest).mp h
    rw [hfound]
    exact Option.some_ne_none _
  · intro h
    obtain ⟨⟨lexeme, rest⟩, hfound⟩ := Option.ne_none_iff_exists'.mp h
    exact ⟨_, _, rest, (rule.finds c cs _ _ rest).mpr ⟨lexeme, hfound, rfl, rfl⟩⟩

theorem Reads.ne_nil {rule : Rule} {chars rest : List Char} {token? : Option Token}
    (h : rule.Reads chars token? rest) : chars ≠ [] := by
  cases h with
  | number hne => exact hne
  | _ => exact List.cons_ne_nil _ _

end Rule

/-! ### The first rule that applies -/

theorem munch_iff {rules : List Rule} {c : Char} {cs : List Char} {segment : Segment}
    {rest : List Char} : Munch (c :: cs) rules segment rest ↔
      ∃ lexeme, rules.findSome? (fun rule => rule.lexeme? c cs) = some (lexeme, rest) ∧
        lexeme.text = segment.chars ∧ lexeme.token? = segment.token? := by
  -- by induction on the rules: the one in front either finds something, and then nothing
  -- else can be taken, or it does not apply, and the others decide
  induction rules with
  | nil =>
    constructor
    · nofun
    · rintro ⟨lexeme, hfound, -⟩
      cases hfound
  | cons rule rules ih =>
    have hfinds := rule.finds c cs segment.chars segment.token? rest
    rw [List.findSome?_cons]
    cases hrule : rule.lexeme? c cs with
    | none =>
      have hnot : ¬ rule.Applies (c :: cs) := by
        rw [rule.applies_iff, not_not, hrule]
      rw [← ih]
      constructor
      · intro h
        cases h with
        | applies htext hreads => exact absurd ⟨_, _, rest, htext, hreads⟩ hnot
        | skips _ h => exact h
      · exact .skips hnot
    | some found =>
      have happlies : rule.Applies (c :: cs) := by
        rw [rule.applies_iff, hrule]
        exact Option.some_ne_none _
      rw [hrule] at hfinds
      constructor
      · intro h
        cases h with
        | applies htext hreads => exact hfinds.mp ⟨htext, hreads⟩
        | skips hnot _ => exact absurd happlies hnot
      · intro h
        obtain ⟨htext, hreads⟩ := hfinds.mpr h
        exact .applies htext hreads

theorem Lexeme.operatorAt?_eq_or (c : Char) (cs : List Char) :
    (operatorAt? c cs).map (fun found => (Lexeme.operator found.1, found.2)) =
      (Rule.pair.lexeme? c cs).or (Rule.single.lexeme? c cs) := by
  cases cs with
  | nil => simp [operatorAt?, Rule.lexeme?, Function.comp_def]
  | cons d rest =>
    cases hpair : Operator.ofSymbol? [c, d] with
    | none => simp [operatorAt?, Rule.lexeme?, hpair, Function.comp_def]
    | some op => simp [operatorAt?, Rule.lexeme?, hpair]

/-- The first lexeme of a text is what the first of the rules finds that finds anything. -/
theorem Lexeme.first_eq_findSome? (c : Char) (cs : List Char) :
    Rule.inOrder.findSome? (fun rule => rule.lexeme? c cs) = some (first c cs) := by
  have hor : Rule.inOrder.findSome? (fun rule => rule.lexeme? c cs) =
      (Rule.blank.lexeme? c cs).or ((Rule.quoted.lexeme? c cs).or
        (((Rule.pair.lexeme? c cs).or (Rule.single.lexeme? c cs)).or
          ((Rule.number.lexeme? c cs).or ((Rule.name.lexeme? c cs).or
            (some (.unknown c, cs)))))) := by
    have hcons : ∀ (rule : Rule) (rules : List Rule),
        (rule :: rules).findSome? (fun rule => rule.lexeme? c cs) =
          (rule.lexeme? c cs).or (rules.findSome? fun rule => rule.lexeme? c cs) := by
      intro rule rules
      rw [List.findSome?_cons]
      cases rule.lexeme? c cs <;> rfl
    simp only [Rule.inOrder, hcons, List.findSome?_nil, Option.or_none, Option.or_assoc]
    rfl
  -- the definition tries the rules in this order, both operator rules at once
  rw [hor, ← operatorAt?_eq_or, first]
  by_cases hblank : Text.isBlank c = true
  · rw [if_pos hblank, Rule.lexeme?, if_pos hblank, Option.some_or]
  · rw [if_neg hblank, Rule.lexeme?, if_neg hblank, Option.none_or]
    by_cases hquote : c = '\'' ∨ c = '"'
    · rw [if_pos hquote, Rule.lexeme?, if_pos hquote, Option.some_or]
    · rw [if_neg hquote, Rule.lexeme?, if_neg hquote, Option.none_or]
      cases operatorAt? c cs with
      | some found => rfl
      | none =>
        rw [Option.map_none, Option.none_or, Rule.lexeme?, Rule.lexeme?]
        by_cases hnumber : isNumberChar c = true
        · rw [if_pos hnumber, Option.some_or, if_pos hnumber]
        · rw [if_neg hnumber, Option.none_or, if_neg hnumber]
          by_cases hname : isNameStart c = true
          · rw [if_pos hname, Option.some_or, if_pos hname]
          · rw [if_neg hname, Option.none_or, if_neg hname]

theorem munch_inOrder_iff {c : Char} {cs : List Char} {segment : Segment} {rest : List Char} :
    Munch (c :: cs) Rule.inOrder segment rest ↔
      segment = (Lexeme.first c cs).1.segment ∧ rest = (Lexeme.first c cs).2 := by
  rw [munch_iff, Lexeme.first_eq_findSome?]
  constructor
  · obtain ⟨chars, token?⟩ := segment
    rintro ⟨lexeme, hfirst, rfl, rfl⟩
    rw [Option.some.inj hfirst]
    exact ⟨rfl, rfl⟩
  · rintro ⟨rfl, rfl⟩
    exact ⟨_, rfl, rfl, rfl⟩

theorem Munch.reads {text : List Char} {rules : List Rule} {segment : Segment}
    {rest : List Char} (h : Munch text rules segment rest) :
    ∃ rule : Rule, rule.Reads segment.chars segment.token? rest ∧ text = segment.chars ++ rest := by
  induction h with
  | applies htext hreads => exact ⟨_, hreads, htext⟩
  | skips hnot h ih => exact ih

/-- **The segments of a text are its lexemes.** -/
theorem segmented_iff {text : List Char} {segments : List Segment} :
    Segmented text segments ↔ segments = (lexemes text).map Lexeme.segment := by
  induction text using lexemes.induct generalizing segments with
  | case1 =>
    rw [lexemes]
    constructor
    · intro h
      cases h with
      | nil => rfl
      | cons h hrest =>
        obtain ⟨rule, hreads, htext⟩ := h.reads
        exact absurd (List.append_eq_nil_iff.mp htext.symm).1 hreads.ne_nil
    · rintro rfl
      exact .nil
  | case2 c cs ih =>
    rw [lexemes, List.map_cons]
    constructor
    · intro h
      cases h with
      | cons h hrest =>
        obtain ⟨rfl, rfl⟩ := munch_inOrder_iff.mp h
        rw [ih.mp hrest]
    · rintro rfl
      exact .cons (munch_inOrder_iff.mpr ⟨rfl, rfl⟩) (ih.mpr rfl)

theorem segmented_lexemes (text : List Char) :
    Segmented text ((lexemes text).map Lexeme.segment) :=
  segmented_iff.mpr rfl

theorem tokenize_of_segmented {text : List Char} {segments : List Segment}
    (h : Segmented text segments) : tokenize text = segments.filterMap Segment.token? := by
  rw [segmented_iff.mp h, List.filterMap_map]
  rfl

/-! ### What the tokens can be -/

theorem Segmented.chars {text : List Char} {segments : List Segment} (h : Segmented text segments) :
    segments.flatMap Segment.chars = text := by
  induction h with
  | nil => rfl
  | cons h hrest ih =>
    obtain ⟨rule, -, htext⟩ := h.reads
    rw [List.flatMap_cons, ih, htext]

theorem Segmented.reads {text : List Char} {segments : List Segment} (h : Segmented text segments) :
    ∀ segment ∈ segments, ∃ (rule : Rule) (rest : List Char),
      rule.Reads segment.chars segment.token? rest := by
  induction h with
  | nil => nofun
  | cons h hrest ih =>
    obtain ⟨rule, hreads, -⟩ := h.reads
    exact List.forall_mem_cons.mpr ⟨⟨rule, _, hreads⟩, ih⟩

theorem mem_tokenize {text : List Char} {token : Token} (h : token ∈ tokenize text) :
    ∃ (rule : Rule) (chars rest : List Char), rule.Reads chars (some token) rest := by
  have hsegmented := segmented_lexemes text
  rw [tokenize_of_segmented hsegmented] at h
  obtain ⟨segment, hmem, htoken⟩ := List.mem_filterMap.mp h
  obtain ⟨rule, rest, hreads⟩ := hsegmented.reads segment hmem
  rw [htoken] at hreads
  exact ⟨rule, segment.chars, rest, hreads⟩

theorem isReference_of_reads {rule : Rule} {chars rest : List Char} {path : String}
    (h : rule.Reads chars (some (.reference path)) rest) : IsReference path.toList := by
  generalize htoken : some (Token.reference path) = token? at h
  cases h with
  | number _ _ _ hnumber => cases hnumber <;> cases htoken
  | name hstart hchars _ hname =>
    cases hname with
    | reference htrue hfalse hnull =>
      cases htoken
      rw [String.toList_ofList]
      refine ⟨⟨_, rfl, hstart⟩, ?_, htrue, hfalse, hnull⟩
      exact List.forall_mem_cons.mpr ⟨isNameChar_of_isNameStart hstart, hchars⟩
    | _ => cases htoken
  | _ => cases htoken

theorem isLiteral_of_reads {rule : Rule} {chars rest : List Char} {value : Json}
    (h : rule.Reads chars (some (.literal value)) rest) : IsLiteral value := by
  generalize htoken : some (Token.literal value) = token? at h
  cases h with
  | closed => cases htoken; exact .str _
  | unclosed => cases htoken; exact .str _
  | number _ _ _ hnumber =>
    cases hnumber with
    | finite _ _ hn =>
      cases htoken
      exact .num (Numeric.nonneg_of_ofFloat? (Numeric.isNegative_decimal _ _) hn)
    | _ => cases htoken
  | name _ _ _ hname =>
    cases hname with
    | true => cases htoken; exact .bool _
    | false => cases htoken; exact .bool _
    | null => cases htoken; exact .null
    | reference => cases htoken
  | _ => cases htoken

/-- **Tokenizing follows the lexical grammar.**  Every text has exactly one segmentation,
    and its tokens are those of the segments in their order.  So a reference is always a
    name that stands for no value, and a literal is a string, a truth value, null or a
    finite number that is not negative. -/
theorem tokenize_maximal_munch (text : List Char) :
    (∃ segments, (∀ other, Segmented text other ↔ other = segments) ∧
      segments.flatMap Segment.chars = text ∧
      tokenize text = segments.filterMap Segment.token?) ∧
    (∀ path, Token.reference path ∈ tokenize text → IsReference path.toList) ∧
    (∀ value, Token.literal value ∈ tokenize text → IsLiteral value) := by
  have hsegmented := segmented_lexemes text
  refine ⟨⟨_, fun other => segmented_iff, hsegmented.chars, tokenize_of_segmented hsegmented⟩,
    ?_, ?_⟩
  · intro path hmem
    obtain ⟨rule, chars, rest, hreads⟩ := mem_tokenize hmem
    exact isReference_of_reads hreads
  · intro value hmem
    obtain ⟨rule, chars, rest, hreads⟩ := mem_tokenize hmem
    exact isLiteral_of_reads hreads

end FlowDocs
