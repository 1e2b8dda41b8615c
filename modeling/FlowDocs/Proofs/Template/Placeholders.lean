/-
  FlowDocs/Proofs/Template/Placeholders.lean
  ==========================================
  **Where placeholders are found.**

  Facts about cutting a text that need no context: which texts are one placeholder
  from end to end, that the pieces of a text spell the text, what the pieces are
  where a literal text or a placeholder without inner braces comes next, and which
  texts hold a placeholder at all (`holdsPlaceholder_iff`).
-/
import FlowDocs.Template.Placeholder
import Mathlib

namespace FlowDocs.Template

/-! ### One placeholder from end to end -/

theorem single?_eq_some_iff {cs e : List Char} :
    single? cs = some e ↔
      cs = '\x7b' :: '\x7b' :: (e ++ ['\x7d', '\x7d']) ∧ e ≠ [] ∧ '\n' ∉ e := by
  constructor
  · intro h
    unfold single? at h
    split at h
    · rename_i rest
      dsimp only at h
      split at h
      · rename_i hparts
        cases h
        obtain ⟨hend, hne, hline⟩ := hparts
        refine ⟨?_, hne, hline⟩
        rw [← hend, List.take_append_drop]
      · cases h
    · cases h
  · rintro ⟨rfl, hne, hline⟩
    simp [single?, hne, hline]

/-! ### Cutting -/

/-- The characters of a piece. -/
def Piece.text : Piece → List Char
  | .char c => [c]
  | .placeholder e => '\x7b' :: '\x7b' :: (e ++ ['\x7d', '\x7d'])

theorem untilBraces_eq_append {cs e after : List Char} (h : untilBraces cs = some (e, after)) :
    cs = e ++ '\x7d' :: '\x7d' :: after := by
  induction cs generalizing e with
  | nil => cases h
  | cons c rest ih =>
    unfold untilBraces at h
    split at h
    · cases h; rfl
    · split at h
      · cases h
      · simp only [Option.map_eq_some_iff, Prod.mk.injEq] at h
        obtain ⟨found, hfound, rfl, rfl⟩ := h
        rw [ih hfound, List.cons_append]

theorem placeholderAt?_eq_append {cs e after : List Char}
    (h : placeholderAt? cs = some (e, after)) : cs = (Piece.placeholder e).text ++ after := by
  unfold placeholderAt? at h
  split at h
  · rename_i rest
    cases rest with
    | nil => cases h
    | cons c rest =>
      simp only [expression?] at h
      split at h
      · cases h
      · simp only [Option.map_eq_some_iff, Prod.mk.injEq] at h
        obtain ⟨found, hfound, rfl, rfl⟩ := h
        rw [untilBraces_eq_append hfound]
        simp [Piece.text]
  · cases h

theorem pieces_of_placeholderAt? {cs e after : List Char}
    (h : placeholderAt? cs = some (e, after)) : pieces cs = .placeholder e :: pieces after := by
  rw [pieces]
  split
  · rename_i e' after' h'
    rw [h] at h'
    cases h'; rfl
  · rename_i h'
    rw [h] at h'
    cases h'

theorem pieces_cons_of_placeholderAt? {c : Char} {rest : List Char}
    (h : placeholderAt? (c :: rest) = none) : pieces (c :: rest) = .char c :: pieces rest := by
  rw [pieces]
  split
  · rename_i e after h'
    rw [h] at h'
    cases h'
  · rfl

theorem pieces_nil : pieces [] = [] := by
  rw [pieces]; rfl

/-- **Cutting loses nothing.**  The pieces of a text spell the text. -/
theorem flatMap_text_pieces (cs : List Char) : (pieces cs).flatMap Piece.text = cs := by
  induction cs using pieces.induct with
  | case1 cs e after h ih =>
    rw [pieces_of_placeholderAt? h, List.flatMap_cons, ih]
    exact (placeholderAt?_eq_append h).symm
  | case2 _ => rw [pieces_nil]; rfl
  | case3 c rest h ih =>
    rw [pieces_cons_of_placeholderAt? h, List.flatMap_cons, ih]
    rfl

/-! ### What comes next -/

theorem placeholderAt?_of_ne {c : Char} (h : c ≠ '\x7b') (rest : List Char) :
    placeholderAt? (c :: rest) = none := by
  unfold placeholderAt?
  split
  · rename_i heq
    simp only [List.cons.injEq] at heq
    exact absurd heq.1 h
  · rfl

/-- A text without an opening brace is cut into its characters. -/
theorem pieces_append_of_not_mem {literal : List Char} (h : '\x7b' ∉ literal)
    (rest : List Char) : pieces (literal ++ rest) = literal.map .char ++ pieces rest := by
  induction literal with
  | nil => rfl
  | cons c literal ih =>
    simp only [List.mem_cons, not_or] at h
    have hnone := placeholderAt?_of_ne (Ne.symm h.1) (literal ++ rest)
    rw [List.cons_append, pieces_cons_of_placeholderAt? hnone, ih h.2]
    rfl

theorem untilBraces_cons_of_ne {c : Char} (hbrace : c ≠ '\x7d') (hline : c ≠ '\n')
    (rest : List Char) :
    untilBraces (c :: rest) = (untilBraces rest).map fun found => (c :: found.1, found.2) := by
  rw [untilBraces]
  · rw [if_neg hline]
  · intro after heq
    exact absurd heq hbrace

theorem untilBraces_append {e : List Char} (hbrace : '\x7d' ∉ e) (hline : '\n' ∉ e)
    (after : List Char) : untilBraces (e ++ '\x7d' :: '\x7d' :: after) = some (e, after) := by
  induction e with
  | nil => rfl
  | cons c e ih =>
    simp only [List.mem_cons, not_or] at hbrace hline
    rw [List.cons_append, untilBraces_cons_of_ne (Ne.symm hbrace.1) (Ne.symm hline.1),
      ih hbrace.2 hline.2]
    rfl

/-- A placeholder without closing braces inside is found as it is written. -/
theorem pieces_placeholder {e : List Char} (hne : e ≠ []) (hbrace : '\x7d' ∉ e)
    (hline : '\n' ∉ e) (after : List Char) :
    pieces ((Piece.placeholder e).text ++ after) = .placeholder e :: pieces after := by
  apply pieces_of_placeholderAt?
  obtain ⟨c, e, rfl⟩ := List.exists_cons_of_ne_nil hne
  simp only [List.mem_cons, not_or] at hbrace hline
  have hrest := untilBraces_append hbrace.2 hline.2 after
  simp only [Piece.text, List.cons_append, List.append_assoc, List.nil_append, placeholderAt?,
    expression?, if_neg (Ne.symm hline.1), hrest]
  rfl

/-! ### Texts that hold a placeholder -/

theorem isSome_untilBraces_cons {c : Char} {rest : List Char} :
    (untilBraces (c :: rest)).isSome ↔
      (c = '\x7d' ∧ rest.head? = some '\x7d') ∨ (c ≠ '\n' ∧ (untilBraces rest).isSome) := by
  constructor
  · intro h
    unfold untilBraces at h
    split at h
    · exact Or.inl ⟨rfl, rfl⟩
    · split at h
      · cases h
      · rename_i hline
        rw [Option.isSome_map] at h
        exact Or.inr ⟨hline, h⟩
  · intro h
    unfold untilBraces
    split
    · rfl
    · rename_i hbraces
      rcases h with ⟨rfl, hhead⟩ | ⟨hline, hrest⟩
      · obtain ⟨after, rfl⟩ := List.head?_eq_some_iff.mp hhead
        exact (hbraces after rfl rfl).elim
      · rw [if_neg hline, Option.isSome_map]
        exact hrest

theorem isSome_expression?_cons {c : Char} {rest : List Char} :
    (expression? (c :: rest)).isSome ↔ c ≠ '\n' ∧ (untilBraces rest).isSome := by
  rw [expression?]
  split
  · rename_i hline
    simp [hline]
  · rename_i hline
    simp [hline]

theorem isSome_untilBraces_of_line {e : List Char} (hline : '\n' ∉ e) (after : List Char) :
    (untilBraces (e ++ '\x7d' :: '\x7d' :: after)).isSome := by
  induction e with
  | nil => rfl
  | cons c e ih =>
    rw [List.mem_cons, not_or] at hline
    exact isSome_untilBraces_cons.mpr (Or.inr ⟨Ne.symm hline.1, ih hline.2⟩)

theorem line_of_untilBraces {cs e after : List Char} (h : untilBraces cs = some (e, after)) :
    '\n' ∉ e := by
  induction cs generalizing e with
  | nil => cases h
  | cons c rest ih =>
    unfold untilBraces at h
    split at h
    · cases h
      exact List.not_mem_nil
    · split at h
      · cases h
      · rename_i hline
        simp only [Option.map_eq_some_iff, Prod.mk.injEq] at h
        obtain ⟨found, hfound, rfl, rfl⟩ := h
        rw [List.mem_cons, not_or]
        exact ⟨Ne.symm hline, ih hfound⟩

theorem line_of_expression? {cs e after : List Char} (h : expression? cs = some (e, after)) :
    e ≠ [] ∧ '\n' ∉ e := by
  cases cs with
  | nil => cases h
  | cons c rest =>
    rw [expression?] at h
    split at h
    · cases h
    · rename_i hline
      simp only [Option.map_eq_some_iff, Prod.mk.injEq] at h
      obtain ⟨found, hfound, rfl, rfl⟩ := h
      rw [List.mem_cons, not_or]
      exact ⟨List.cons_ne_nil _ _, Ne.symm hline, line_of_untilBraces hfound⟩

/-- A placeholder stands in front exactly if the text starts with double braces around
    one character or more on one line. -/
theorem isSome_placeholderAt?_iff {cs : List Char} :
    (placeholderAt? cs).isSome ↔
      ∃ e after, cs = (Piece.placeholder e).text ++ after ∧ e ≠ [] ∧ '\n' ∉ e := by
  constructor
  · intro h
    obtain ⟨⟨e, after⟩, hfound⟩ := Option.isSome_iff_exists.mp h
    refine ⟨e, after, placeholderAt?_eq_append hfound, ?_⟩
    unfold placeholderAt? at hfound
    split at hfound
    · exact line_of_expression? hfound
    · cases hfound
  · rintro ⟨e, after, rfl, hne, hline⟩
    obtain ⟨c, e, rfl⟩ := List.exists_cons_of_ne_nil hne
    rw [List.mem_cons, not_or] at hline
    have hrest := isSome_untilBraces_of_line hline.2 after
    have hexpression : (expression? (c :: (e ++ '\x7d' :: '\x7d' :: after))).isSome :=
      isSome_expression?_cons.mpr ⟨Ne.symm hline.1, hrest⟩
    simpa [Piece.text, placeholderAt?] using hexpression

theorem holdsPlaceholder_nil : holdsPlaceholder [] = false := by
  rw [holdsPlaceholder, pieces_nil, List.any_nil]

theorem holdsPlaceholder_cons (c : Char) (rest : List Char) :
    holdsPlaceholder (c :: rest)
      = ((placeholderAt? (c :: rest)).isSome || holdsPlaceholder rest) := by
  cases h : placeholderAt? (c :: rest) with
  | none =>
    rw [holdsPlaceholder, pieces_cons_of_placeholderAt? h]
    rfl
  | some found =>
    rw [holdsPlaceholder, pieces_of_placeholderAt? h]
    rfl

/-- A text holds a placeholder exactly if there are double braces around one character or
    more on one line somewhere in it. -/
theorem holdsPlaceholder_iff {cs : List Char} :
    holdsPlaceholder cs = true ↔
      ∃ before e after, cs = before ++ ((Piece.placeholder e).text ++ after) ∧
        e ≠ [] ∧ '\n' ∉ e := by
  induction cs with
  | nil =>
    rw [holdsPlaceholder_nil]
    constructor
    · intro h
      cases h
    · rintro ⟨before, e, after, h, -⟩
      simp [Piece.text] at h
  | cons c rest ih =>
    rw [holdsPlaceholder_cons, Bool.or_eq_true, isSome_placeholderAt?_iff, ih]
    constructor
    · rintro (⟨e, after, h, hline⟩ | ⟨before, e, after, rfl, hline⟩)
      · exact ⟨[], e, after, h, hline⟩
      · exact ⟨c :: before, e, after, rfl, hline⟩
    · rintro ⟨before, e, after, h, hline⟩
      cases before with
      | nil => exact Or.inl ⟨e, after, h, hline⟩
      | cons d before =>
        obtain ⟨-, rfl⟩ := List.cons.inj h
        exact Or.inr ⟨before, e, after, rfl, hline⟩

/-- A text that is one placeholder from end to end holds a placeholder. -/
theorem holdsPlaceholder_of_single? {cs e : List Char} (h : single? cs = some e) :
    holdsPlaceholder cs = true := by
  obtain ⟨rfl, hne, hline⟩ := single?_eq_some_iff.mp h
  exact holdsPlaceholder_iff.mpr ⟨[], e, [], by simp [Piece.text], hne, hline⟩

theorem single?_of_no_placeholder {cs : List Char} (h : holdsPlaceholder cs = false) :
    single? cs = none := by
  rw [Option.eq_none_iff_forall_ne_some]
  intro e hsingle
  rw [holdsPlaceholder_of_single? hsingle] at h
  cases h

end FlowDocs.Template
