/-
  FlowDocs/Proofs/Lookup/Segments.lean
  ====================================
  **The segments of paths that were put together.**

  A point ends every index in brackets, so it is a cut whatever stands on its two
  sides: the segments of `a.b` are those of `a` and then those of `b`.  A front such
  as `env.` has no brackets and no points before its end, and is the first segment.
-/
import FlowDocs.Lookup.Reference
import Mathlib

namespace FlowDocs

namespace Text

theorem cutAt_of_not_mem {mark : Char} {cs : List Char} (h : mark ∉ cs) :
    cutAt mark cs = [cs] := by
  induction cs with
  | nil => rfl
  | cons c cs ih =>
    simp only [List.mem_cons, not_or] at h
    rw [cutAt, if_neg (Ne.symm h.1), ih h.2]

theorem cutAt_append_cons (mark : Char) (cs rest : List Char) :
    cutAt mark (cs ++ mark :: rest) = cutAt mark cs ++ cutAt mark rest := by
  induction cs with
  | nil => simp [cutAt]
  | cons c cs ih =>
    obtain ⟨part, parts, hcut⟩ := List.exists_cons_of_ne_nil (cutAt_ne_nil mark cs)
    by_cases hc : c = mark
    · rw [List.cons_append, cutAt, cutAt, if_pos hc, if_pos hc, ih, List.cons_append]
    · rw [List.cons_append, cutAt, cutAt, if_neg hc, if_neg hc, ih, hcut]
      rfl

end Text

namespace Lookup

/-! ### Brackets -/

/-- A point is no digit, so it ends the digits of an index. -/
theorem takeWhile_digits_append (cs rest : List Char) :
    (cs ++ '.' :: rest).takeWhile Text.isDecimalDigit = cs.takeWhile Text.isDecimalDigit ∧
      (cs ++ '.' :: rest).dropWhile Text.isDecimalDigit
        = cs.dropWhile Text.isDecimalDigit ++ '.' :: rest := by
  induction cs with
  | nil =>
    have hpoint : Text.isDecimalDigit '.' = false := by decide
    simp [hpoint]
  | cons c cs ih => cases hc : Text.isDecimalDigit c <;> simp [hc, ih.1, ih.2]

theorem bracketed?_append_point (cs rest : List Char) :
    bracketed? (cs ++ '.' :: rest)
      = (bracketed? cs).map fun found => (found.1, found.2 ++ '.' :: rest) := by
  obtain ⟨htake, hdrop⟩ := takeWhile_digits_append cs rest
  rw [bracketed?, bracketed?, htake, hdrop]
  cases cs.takeWhile Text.isDecimalDigit with
  | nil => rfl
  | cons d digits =>
    cases cs.dropWhile Text.isDecimalDigit with
    | nil => rfl
    | cons c after =>
      by_cases hc : c = ']'
      · subst hc; rfl
      · simp [hc]

theorem dotted_of_bracketed? {rest digits after : List Char}
    (h : bracketed? rest = some (digits, after)) :
    dotted ('[' :: rest) = '.' :: digits ++ dotted after := by
  rw [dotted, if_pos rfl]
  split
  · rename_i digits' after' h'
    rw [h] at h'
    cases h'; rfl
  · rename_i h'
    rw [h] at h'
    cases h'

theorem dotted_of_not_bracketed? {rest : List Char} (h : bracketed? rest = none) :
    dotted ('[' :: rest) = '[' :: dotted rest := by
  rw [dotted, if_pos rfl]
  split
  · rename_i digits after h'
    rw [h] at h'
    cases h'
  · rfl

theorem dotted_cons_of_ne {c : Char} (h : c ≠ '[') (rest : List Char) :
    dotted (c :: rest) = c :: dotted rest := by
  rw [dotted, if_neg h]

theorem dotted_of_not_mem {cs : List Char} (h : '[' ∉ cs) : dotted cs = cs := by
  induction cs with
  | nil => rw [dotted]
  | cons c cs ih =>
    simp only [List.mem_cons, not_or] at h
    rw [dotted_cons_of_ne (Ne.symm h.1), ih h.2]

theorem dotted_append_point (cs rest : List Char) :
    dotted (cs ++ '.' :: rest) = dotted cs ++ '.' :: dotted rest := by
  induction cs using dotted.induct with
  | case1 => rw [List.nil_append, dotted_cons_of_ne (by decide), dotted]; rfl
  | case2 tail digits after h ih =>
    have hall : bracketed? (tail ++ '.' :: rest) = some (digits, after ++ '.' :: rest) := by
      rw [bracketed?_append_point, h]; rfl
    rw [List.cons_append, dotted_of_bracketed? hall, dotted_of_bracketed? h, ih]
    simp
  | case3 tail h ih =>
    have hall : bracketed? (tail ++ '.' :: rest) = none := by
      rw [bracketed?_append_point, h]; rfl
    rw [List.cons_append, dotted_of_not_bracketed? hall, dotted_of_not_bracketed? h, ih]
    rfl
  | case4 c tail hc ih =>
    rw [List.cons_append, dotted_cons_of_ne hc, dotted_cons_of_ne hc, ih]
    rfl

/-! ### Segments -/

theorem segments_ne_nil (path : String) : segments path ≠ [] := by
  intro h
  exact Text.cutAt_ne_nil '.' _ (List.map_eq_nil_iff.mp h)

theorem first_ne {path first name : String} {rest : List String}
    (hsegments : segments path = first :: rest) (h : (segments path).head? ≠ some name) :
    first ≠ name := by
  rintro rfl
  rw [hsegments] at h
  exact h rfl

theorem segments_of_not_mem {cs : List Char} (hbracket : '[' ∉ cs) (hpoint : '.' ∉ cs) :
    segments (String.ofList cs) = [String.ofList cs] := by
  rw [segments, String.toList_ofList, dotted_of_not_mem hbracket, Text.cutAt_of_not_mem hpoint]
  rfl

/-- **A point is a cut.**  The segments of two paths with a point between them are
    those of the first and those of the second. -/
theorem segments_append_point (path rest : List Char) :
    segments (String.ofList (path ++ '.' :: rest))
      = segments (String.ofList path) ++ segments (String.ofList rest) := by
  simp only [segments, String.toList_ofList, dotted_append_point, Text.cutAt_append_cons,
    List.map_append]

/-- A front without brackets and points is the first segment. -/
theorem segments_front {front : List Char} (hbracket : '[' ∉ front) (hpoint : '.' ∉ front)
    (rest : List Char) :
    segments (String.ofList (front ++ '.' :: rest))
      = String.ofList front :: segments (String.ofList rest) := by
  rw [segments_append_point, segments_of_not_mem hbracket hpoint]
  rfl

theorem segments_of_front {front : List Char} (hbracket : '[' ∉ front) (hpoint : '.' ∉ front)
    {path : String} (h : front ++ ['.'] <+: path.toList) :
    ∃ rest, segments path = String.ofList front :: segments rest := by
  obtain ⟨rest, hrest⟩ := h
  have hpath : path = String.ofList (front ++ '.' :: rest) := by
    rw [← String.toList_inj, String.toList_ofList, ← hrest, List.append_assoc]
    rfl
  exact ⟨String.ofList rest, by rw [hpath, segments_front hbracket hpoint]⟩

theorem not_front {front : List Char} (hbracket : '[' ∉ front) (hpoint : '.' ∉ front)
    {path id : String} {rest : List String} (hsegments : segments path = id :: rest)
    (h : id = String.ofList front → rest = []) : ¬ front ++ ['.'] <+: path.toList := by
  intro hstart
  obtain ⟨tail, htail⟩ := segments_of_front hbracket hpoint hstart
  rw [hsegments, List.cons.injEq] at htail
  obtain ⟨hid, hrest⟩ := htail
  rw [h hid] at hrest
  exact segments_ne_nil tail hrest.symm

/-! ### Fronts -/

theorem stripFront?_eq_some_iff {front cs rest : List Char} :
    stripFront? front cs = some rest ↔ cs = front ++ rest := by
  induction front generalizing cs with
  | nil => simp [stripFront?, eq_comm]
  | cons p front ih =>
    cases cs with
    | nil => simp [stripFront?]
    | cons c cs =>
      by_cases h : c = p
      · simp [stripFront?, h, ih]
      · simp [stripFront?, h]

theorem stripFront?_eq_none_iff {front cs : List Char} :
    stripFront? front cs = none ↔ ¬ front <+: cs := by
  rw [Option.eq_none_iff_forall_ne_some]
  constructor
  · rintro h ⟨rest, hrest⟩
    exact h rest (stripFront?_eq_some_iff.mpr hrest.symm)
  · intro h rest hrest
    exact h ⟨rest, (stripFront?_eq_some_iff.mp hrest).symm⟩

end Lookup
end FlowDocs
