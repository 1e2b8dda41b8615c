/-
  FlowDocs/Proofs/Template/Substitution.lean
  ==========================================
  **One pass replaces every placeholder.**

  After a text has been rendered no placeholder is left in it, and none has come up where
  literal text meets a text put in, as long as no opening brace has been put in.

  The argument runs from the rendering back to the text.  Double braces that stay in the
  literal text have found no closing braces on their line, so no placeholder was replaced
  before the end of that line: what follows them there is rendered as it is written, and
  still has no closing braces.  And a brace never stands right before a placeholder, since
  the placeholder would have started with it; so no two braces come together.
-/
import FlowDocs.Proofs.Template.Rendering

namespace FlowDocs.Template

/-- The texts put in for the placeholders among some pieces, one after another. -/
def insertedTexts (supply : Supply) (context : Context) : List Piece → List (List Char)
  | [] => []
  | .char _ :: rest => insertedTexts supply context rest
  | .placeholder e :: rest =>
    displayText (evaluate supply.left context e) :: insertedTexts supply.right context rest

/-! ### What comes after the braces -/

theorem isSome_untilBraces_of_expression? {cs : List Char} (h : (expression? cs).isSome) :
    (untilBraces cs).isSome := by
  cases cs with
  | nil => cases h
  | cons c rest =>
    rw [isSome_expression?_cons] at h
    exact isSome_untilBraces_cons.mpr (Or.inr h)

theorem isSome_placeholderAt?_cons {c : Char} {rest : List Char} :
    (placeholderAt? (c :: rest)).isSome ↔
      c = '\x7b' ∧ ∃ after, rest = '\x7b' :: after ∧ (expression? after).isSome := by
  constructor
  · intro h
    unfold placeholderAt? at h
    split at h
    · rename_i after heq
      obtain ⟨rfl, rfl⟩ := List.cons.inj heq
      exact ⟨rfl, after, rfl, h⟩
    · cases h
  · rintro ⟨rfl, after, rfl, h⟩
    exact h

/-- After its first brace a placeholder goes on to closing braces on the same line. -/
theorem isSome_expression?_of_placeholderAt? {cs : List Char} (h : (placeholderAt? cs).isSome) :
    (expression? cs).isSome := by
  cases cs with
  | nil => cases h
  | cons c rest =>
    obtain ⟨rfl, after, rfl, hafter⟩ := isSome_placeholderAt?_cons.mp h
    have hrest := isSome_untilBraces_of_expression? hafter
    have hbrace : (untilBraces ('\x7b' :: after)).isSome :=
      isSome_untilBraces_cons.mpr (Or.inr ⟨by decide, hrest⟩)
    exact isSome_expression?_cons.mpr ⟨by decide, hbrace⟩

theorem isSome_untilBraces_of_placeholderAt? {cs : List Char} (h : (placeholderAt? cs).isSome) :
    (untilBraces cs).isSome :=
  isSome_untilBraces_of_expression? (isSome_expression?_of_placeholderAt? h)

/-- A brace right before a placeholder starts a placeholder itself. -/
theorem isSome_placeholderAt?_brace {cs : List Char} (h : (placeholderAt? cs).isSome) :
    (placeholderAt? ('\x7b' :: cs)).isSome := by
  cases cs with
  | nil => cases h
  | cons c rest =>
    obtain ⟨rfl, after, rfl, hafter⟩ := isSome_placeholderAt?_cons.mp h
    have hbrace := isSome_expression?_cons.mpr
      ⟨(by decide : '\x7b' ≠ '\n'), isSome_untilBraces_of_expression? hafter⟩
    exact isSome_placeholderAt?_cons.mpr ⟨rfl, _, rfl, hbrace⟩

/-! ### From the rendering back to the text -/

section
variable (supply : Supply) (context : Context)

/-- Where no placeholder stands the rendering has the character of the text. -/
theorem render_pieces_cases (cs : List Char) :
    (placeholderAt? cs).isSome ∨ (cs = [] ∧ render supply context (pieces cs) = []) ∨
      ∃ c rest, cs = c :: rest ∧
        render supply context (pieces cs) = c :: render supply context (pieces rest) := by
  cases hplaceholder : placeholderAt? cs with
  | some found => exact Or.inl rfl
  | none =>
    cases cs with
    | nil =>
      rw [pieces_nil]
      exact Or.inr (Or.inl ⟨rfl, rfl⟩)
    | cons c rest =>
      rw [pieces_cons_of_placeholderAt? hplaceholder]
      exact Or.inr (Or.inr ⟨c, rest, rfl, rfl⟩)

variable {supply context}

/-- Closing braces on the first line of the rendering are there in the text. -/
theorem isSome_untilBraces_of_render {cs : List Char}
    (h : (untilBraces (render supply context (pieces cs))).isSome) : (untilBraces cs).isSome := by
  induction cs with
  | nil =>
    rw [pieces_nil] at h
    cases h
  | cons c rest ih =>
    rcases render_pieces_cases supply context (c :: rest) with hplaceholder | ⟨hnil, -⟩ | hchar
    · exact isSome_untilBraces_of_placeholderAt? hplaceholder
    · cases hnil
    · obtain ⟨_, _, heq, hrender⟩ := hchar
      obtain ⟨rfl, rfl⟩ := List.cons.inj heq
      rw [hrender, isSome_untilBraces_cons] at h
      rw [isSome_untilBraces_cons]
      rcases h with ⟨rfl, hhead⟩ | ⟨hline, hrest⟩
      · -- the second brace is the next character, or a placeholder comes next and has its own
        rcases render_pieces_cases supply context rest with
          hnext | ⟨-, hnil⟩ | ⟨d, more, rfl, hnext⟩
        · exact Or.inr ⟨by decide, isSome_untilBraces_of_placeholderAt? hnext⟩
        · rw [hnil] at hhead
          cases hhead
        · rw [hnext] at hhead
          exact Or.inl ⟨rfl, hhead⟩
      · exact Or.inr ⟨hline, ih hrest⟩

theorem isSome_expression?_of_render {cs : List Char}
    (h : (expression? (render supply context (pieces cs))).isSome) : (expression? cs).isSome := by
  rcases render_pieces_cases supply context cs with
    hplaceholder | ⟨rfl, hnil⟩ | ⟨c, rest, rfl, hchar⟩
  · exact isSome_expression?_of_placeholderAt? hplaceholder
  · rw [hnil] at h
    cases h
  · rw [hchar, isSome_expression?_cons] at h
    exact isSome_expression?_cons.mpr ⟨h.1, isSome_untilBraces_of_render h.2⟩

/-- A character of the text starts a placeholder in the rendering only if it starts one in
    the text. -/
theorem isSome_placeholderAt?_of_render {c : Char} {rest : List Char}
    (h : (placeholderAt? (c :: render supply context (pieces rest))).isSome) :
    (placeholderAt? (c :: rest)).isSome := by
  obtain ⟨rfl, after, hrender, hafter⟩ := isSome_placeholderAt?_cons.mp h
  rcases render_pieces_cases supply context rest with hnext | ⟨-, hnil⟩ | ⟨d, more, rfl, hchar⟩
  · exact isSome_placeholderAt?_brace hnext
  · rw [hnil] at hrender
    cases hrender
  · obtain ⟨rfl, rfl⟩ := List.cons.inj (hchar.symm.trans hrender)
    exact isSome_placeholderAt?_cons.mpr ⟨rfl, more, rfl, isSome_expression?_of_render hafter⟩

end

/-! ### Rendered texts -/

theorem holdsPlaceholder_append_of_not_mem {inserted : List Char} (h : '\x7b' ∉ inserted)
    (rest : List Char) : holdsPlaceholder (inserted ++ rest) = holdsPlaceholder rest := by
  induction inserted with
  | nil => rfl
  | cons c inserted ih =>
    rw [List.mem_cons, not_or] at h
    rw [List.cons_append, holdsPlaceholder_cons, placeholderAt?_of_ne (Ne.symm h.1), ih h.2]
    rfl

/-- **Rendering leaves no placeholder,** whatever is put in without an opening brace. -/
theorem holdsPlaceholder_render (supply : Supply) (context : Context) {cs : List Char}
    (h : ∀ inserted ∈ insertedTexts supply context (pieces cs), '\x7b' ∉ inserted) :
    holdsPlaceholder (render supply context (pieces cs)) = false := by
  induction cs using pieces.induct generalizing supply with
  | case1 cs e after hfound ih =>
    rw [pieces_of_placeholderAt? hfound] at h ⊢
    obtain ⟨hvalue, hrest⟩ := List.forall_mem_cons.mp h
    rw [render, holdsPlaceholder_append_of_not_mem hvalue]
    exact ih supply.right hrest
  | case2 _ =>
    rw [pieces_nil]
    exact holdsPlaceholder_nil
  | case3 c rest hnone ih =>
    rw [pieces_cons_of_placeholderAt? hnone] at h ⊢
    rw [render, holdsPlaceholder_cons, ih supply h, Bool.or_false, Bool.eq_false_iff]
    intro hplaceholder
    have htext := isSome_placeholderAt?_of_render hplaceholder
    rw [hnone] at htext
    cases htext

/-- **Substitution is complete.**  The value of a text that is not one placeholder is a text
    without placeholders, provided no opening brace is put in; closing braces do no harm.  So
    nothing is left to replace: resolved again, in whatever context, it stays as it is. -/
theorem resolveText_complete (supply : Supply) (context : Context) (text : String)
    (hsingle : ¬ ∃ e, IsSingle text e)
    (hinserted : ∀ inserted ∈ insertedTexts supply context (pieces text.toList),
      '\x7b' ∉ inserted) :
    ∃ result, resolveText supply context text = some (.str result) ∧
      holdsPlaceholder result.toList = false ∧
      ∀ supply' context', resolveText supply' context' result = some (.str result) := by
  have hholds : holdsPlaceholder
      (String.ofList (render supply context (pieces text.toList))).toList = false := by
    rw [String.toList_ofList]
    exact holdsPlaceholder_render supply context hinserted
  have hnone := single?_eq_none_iff.mpr hsingle
  exact ⟨_, resolveText_of_not_single hnone supply context, hholds,
    resolveText_of_no_placeholder hholds⟩

/-- The braces before the line break keep their line, and closing braces are put in behind
    them. -/
theorem resolveText_complete_over_lines :
    (¬ ∃ e, IsSingle "\x7b\x7b\n\x7b\x7ba\x7d\x7d\x7d" e) ∧
      (∀ inserted ∈ insertedTexts (.constant ⟨"noon", "id"⟩) { extra := [("a", .str "\x7d\x7d")] }
        (pieces "\x7b\x7b\n\x7b\x7ba\x7d\x7d\x7d".toList), '\x7b' ∉ inserted) ∧
      ∃ result, resolveText (.constant ⟨"noon", "id"⟩) { extra := [("a", .str "\x7d\x7d")] }
          "\x7b\x7b\n\x7b\x7ba\x7d\x7d\x7d" = some (.str result) ∧
        holdsPlaceholder result.toList = false ∧
        ∀ supply' context', resolveText supply' context' result = some (.str result) := by
  have hsingle : ¬ ∃ e, IsSingle "\x7b\x7b\n\x7b\x7ba\x7d\x7d\x7d" e :=
    single?_eq_none_iff.mp (by decide)
  have hinserted : insertedTexts (.constant ⟨"noon", "id"⟩) { extra := [("a", .str "\x7d\x7d")] }
      (pieces "\x7b\x7b\n\x7b\x7ba\x7d\x7d\x7d".toList) = ["\x7d\x7d".toList] := by
    cbv
  have hbrace : ∀ inserted ∈ insertedTexts (.constant ⟨"noon", "id"⟩)
      { extra := [("a", .str "\x7d\x7d")] } (pieces "\x7b\x7b\n\x7b\x7ba\x7d\x7d\x7d".toList),
      '\x7b' ∉ inserted := by
    rw [hinserted]
    decide
  exact ⟨hsingle, hbrace, resolveText_complete _ _ _ hsingle hbrace⟩

end FlowDocs.Template
