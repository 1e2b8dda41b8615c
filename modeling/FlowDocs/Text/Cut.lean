/-
  FlowDocs/Text/Cut.lean
  ======================
  **Cutting a text at a character.**

  A text is cut at every occurrence of a character.  The parts between may be
  empty, there is always at least one, and joining them again gives the text.
-/

namespace FlowDocs.Text

/-- The parts of a text between the occurrences of a character. -/
def cutAt (mark : Char) : List Char → List (List Char)
  | [] => [[]]
  | c :: cs =>
    if c = mark then [] :: cutAt mark cs
    else
      match cutAt mark cs with
      | [] => [[c]]
      | part :: rest => (c :: part) :: rest

/-- Parts with a character between each two. -/
def joinWith (mark : Char) : List (List Char) → List Char
  | [] => []
  | [part] => part
  | part :: rest => part ++ mark :: joinWith mark rest

theorem cutAt_ne_nil (mark : Char) (cs : List Char) : cutAt mark cs ≠ [] := by
  cases cs with
  | nil => simp [cutAt]
  | cons c cs =>
    simp only [cutAt]
    split
    · simp
    · split <;> simp

/-- Nothing but the character itself is lost in a cut. -/
theorem joinWith_cutAt (mark : Char) (cs : List Char) : joinWith mark (cutAt mark cs) = cs := by
  induction cs with
  | nil => rfl
  | cons c cs ih =>
    obtain ⟨part, rest, heq⟩ := List.exists_cons_of_ne_nil (cutAt_ne_nil mark cs)
    rw [heq] at ih
    by_cases h : c = mark
    · simp [cutAt, h, heq, joinWith, ih]
    · cases rest with
      | nil => simp_all [cutAt, joinWith]
      | cons next rest =>
        simp only [cutAt, h, if_false, heq, joinWith, List.cons_append] at ih ⊢
        rw [ih]

/-- No part holds the character. -/
theorem not_mem_of_mem_cutAt {mark : Char} {cs part : List Char}
    (h : part ∈ cutAt mark cs) : mark ∉ part := by
  induction cs generalizing part with
  | nil => simp_all [cutAt]
  | cons c cs ih =>
    obtain ⟨first, rest, heq⟩ := List.exists_cons_of_ne_nil (cutAt_ne_nil mark cs)
    by_cases hc : c = mark
    · simp only [cutAt, hc, if_true, List.mem_cons] at h
      rcases h with rfl | h
      · simp
      · exact ih h
    · simp only [cutAt, hc, if_false, heq, List.mem_cons] at h
      rcases h with rfl | h
      · simp only [List.mem_cons, not_or]
        exact ⟨fun e => hc e.symm, ih (by rw [heq]; simp)⟩
      · exact ih (by rw [heq]; simp [h])

end FlowDocs.Text
