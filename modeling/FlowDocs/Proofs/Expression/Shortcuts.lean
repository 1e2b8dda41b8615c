/-
  FlowDocs/Proofs/Expression/Shortcuts.lean
  =========================================
  **The shortcuts of evaluation change nothing.**

  `evaluate` answers three frequent forms early: the name of a builtin, a text that
  matches the pattern of a reference, and a chain of one operand.  `evaluatePlainly`
  is the general way alone.  The two agree because the pattern of a reference, which
  is written in ranges of characters, describes the same texts as the rules of
  names, which are written in classes: such a text is one reference token, and the
  reduction of one operand is that operand.
-/
import FlowDocs.Proofs.Expression.Lexing
import FlowDocs.Proofs.Expression.Precedence

namespace FlowDocs

/-- The value of an expression by the general way alone: trim, cut into tokens,
    resolve every reference, reduce.  A text without tokens stands for itself. -/
def evaluatePlainly (supply : Supply) (context : Context) (text : List Char) : Option Json :=
  match tokenize (Text.trim text) with
  | [] => some (.str (String.ofList (Text.trim text)))
  | tokens => reduce (Token.resolveAll supply context tokens)

/-! ### The pattern of a reference

The ranges of the pattern and the classes of the lexemes hold the same characters. -/

theorem between_self (c d : Char) : d ≤ c ∧ c ≤ d ↔ c = d := by
  constructor
  · rintro ⟨hdc, hcd⟩
    exact Char.le_antisymm hcd hdc
  · rintro rfl
    exact ⟨Char.le_refl c, Char.le_refl c⟩

theorem isUpper_iff (c : Char) : c.isUpper = true ↔ 'A' ≤ c ∧ c ≤ 'Z' := by
  simp [Char.isUpper, Char.le_def]

theorem isLower_iff (c : Char) : c.isLower = true ↔ 'a' ≤ c ∧ c ≤ 'z' := by
  simp [Char.isLower, Char.le_def]

theorem isDigit_iff (c : Char) : c.isDigit = true ↔ '0' ≤ c ∧ c ≤ '9' := by
  simp [Char.isDigit, Char.le_def]

theorem inRanges_singleReferenceStart (c : Char) :
    inRanges singleReferenceStart c = isNameStart c := by
  rw [Bool.eq_iff_iff]
  simp only [inRanges, singleReferenceStart, List.any_cons, List.any_nil, Bool.or_false,
    Bool.or_eq_true, Bool.and_eq_true, decide_eq_true_eq, between_self]
  simp only [isNameStart, Char.isAlpha, Bool.or_eq_true, beq_iff_eq, isUpper_iff, isLower_iff,
    or_assoc, or_left_comm]

theorem inRanges_singleReferenceRest (c : Char) :
    inRanges singleReferenceRest c = isNameChar c := by
  rw [Bool.eq_iff_iff]
  simp only [inRanges, singleReferenceRest, List.any_cons, List.any_nil, Bool.or_false,
    Bool.or_eq_true, Bool.and_eq_true, decide_eq_true_eq, between_self]
  simp only [isNameChar, Char.isAlphanum, Char.isAlpha, Bool.or_eq_true, beq_iff_eq, isUpper_iff,
    isLower_iff, isDigit_iff, or_assoc, or_left_comm]

/-- A text that matches the pattern is cut into one reference, the text itself. -/
theorem tokenize_of_isSingleReference {cs : List Char} (h : isSingleReference cs = true) :
    tokenize cs = [.reference (String.ofList cs)] := by
  cases cs with
  | nil => exact absurd h (by decide)
  | cons c rest =>
    simp only [isSingleReference, Bool.and_eq_true, decide_eq_true_eq,
      inRanges_singleReferenceStart] at h
    obtain ⟨⟨hstart, hall⟩, hnames⟩ := h
    have hrest : rest.all isNameChar = true := by
      rw [List.all_eq_true] at hall ⊢
      intro d hd
      rw [← inRanges_singleReferenceRest]
      exact hall d hd
    have hkeyword : Token.keyword? (c :: rest) = none := by
      simp only [String.reduceToList, List.mem_cons, List.not_mem_nil, or_false, not_or] at hnames
      obtain ⟨htrue, hfalse, hnull⟩ := hnames
      rw [Token.keyword?, if_neg htrue, if_neg hfalse, if_neg hnull]
    exact tokenize_name hstart hrest hkeyword

/-- The names of the builtins match the pattern as well. -/
theorem isSingleReference_of_ofName? {cs : List Char} {builtin : Builtin}
    (h : Builtin.ofName? (String.ofList cs) = some builtin) : isSingleReference cs = true := by
  have hcs : cs = "now".toList ∨ cs = "uuid".toList := by
    unfold Builtin.ofName? at h
    split at h
    · rename_i hnow
      exact Or.inl (by rw [← hnow, String.toList_ofList])
    · split at h
      · rename_i huuid
        exact Or.inr (by rw [← huuid, String.toList_ofList])
      · cases h
  rcases hcs with rfl | rfl <;> decide

/-! ### The general way -/

/-- A text whose tokens are one reference has the value of that reference. -/
theorem evaluatePlainly_of_reference {text : List Char} {path : String}
    (h : tokenize (Text.trim text) = [.reference path]) (supply : Supply) (context : Context) :
    evaluatePlainly supply context text = Lookup.reference supply.left.here context path := by
  rw [evaluatePlainly, h]
  rfl

theorem evaluate_eq_plainly (supply : Supply) (context : Context) (text : List Char) :
    evaluate supply context text = evaluatePlainly supply context text := by
  unfold evaluate
  dsimp only
  split
  · rename_i builtin hbuiltin
    have htokens := tokenize_of_isSingleReference (isSingleReference_of_ofName? hbuiltin)
    rw [evaluatePlainly_of_reference htokens, Lookup.reference, hbuiltin]
  · split
    · rename_i hsingle
      rw [evaluatePlainly_of_reference (tokenize_of_isSingleReference hsingle)]
    · rw [evaluatePlainly]
      cases tokenize (Text.trim text) with
      | nil => rfl
      | cons token rest => exact evaluateChain_eq_reduce supply context (token :: rest)

/-- **Shortcuts.**  An expression has the value the general way gives it; and when its
    tokens are one reference, that is what the context holds there, unchanged. -/
theorem evaluate_eq_general_way (supply : Supply) (context : Context) (text : List Char) :
    evaluate supply context text = evaluatePlainly supply context text ∧
      ∀ path, tokenize (Text.trim text) = [.reference path] →
        evaluate supply context text = Lookup.reference supply.left.here context path := by
  refine ⟨evaluate_eq_plainly supply context text, ?_⟩
  intro path h
  rw [evaluate_eq_plainly, evaluatePlainly_of_reference h]

/-- A double that is integral stays a double. -/
theorem evaluate_padded_reference :
    tokenize (Text.trim "  user.ids[0] ".toList) = [.reference "user.ids[0]"] ∧
      evaluate (.constant ⟨"noon", "id"⟩)
          { steps := [("user", .obj [("ids", .arr [.num (.double 5.0)])])] }
          "  user.ids[0] ".toList = some (.num (.double 5.0)) := by
  have htokens : tokenize (Text.trim "  user.ids[0] ".toList) = [.reference "user.ids[0]"] := by
    cbv
  have hvalue : ∀ n : Number, Lookup.reference ⟨"noon", "id"⟩
      { steps := [("user", .obj [("ids", .arr [.num n])])] } "user.ids[0]" = some (.num n) := by
    intro n; cbv
  exact ⟨htokens, ((evaluate_eq_general_way _ _ _).2 _ htokens).trans (hvalue _)⟩

end FlowDocs
