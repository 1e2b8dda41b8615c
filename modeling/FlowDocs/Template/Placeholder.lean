/-
  FlowDocs/Template/Placeholder.lean
  ==================================
  **Placeholders in a text.**

  A placeholder is an expression between double braces: at least one character, on
  one line.  In running text a placeholder starts as early and ends as soon as it
  can, and `pieces` cuts a text into placeholders and the characters between them.
  A text that is one placeholder from end to end is a case of its own: its
  expression reaches from the first braces to the last, whatever braces are
  inside.
-/

namespace FlowDocs.Template

/-- A piece of a text. -/
inductive Piece where
  | char (c : Char)
  | placeholder (expression : List Char)
deriving DecidableEq, Repr

/-- The text up to the next closing braces on the line, and what follows them. -/
def untilBraces : List Char → Option (List Char × List Char)
  | [] => none
  | c :: rest =>
    match c, rest with
    | '\x7d', '\x7d' :: after => some ([], after)
    | c, rest =>
      if c = '\n' then none
      else (untilBraces rest).map fun found => (c :: found.1, found.2)

/-- The expression of a placeholder whose opening braces have been read, and what
    follows its closing braces.  The first character belongs to the expression
    even if it is a brace. -/
def expression? : List Char → Option (List Char × List Char)
  | [] => none
  | c :: rest =>
    if c = '\n' then none
    else (untilBraces rest).map fun found => (c :: found.1, found.2)

theorem length_untilBraces {cs e after : List Char} (h : untilBraces cs = some (e, after)) :
    after.length < cs.length := by
  induction cs generalizing e with
  | nil => simp [untilBraces] at h
  | cons c rest ih =>
    unfold untilBraces at h
    split at h
    · simp only [Option.some.injEq, Prod.mk.injEq] at h
      rw [← h.2]; simp only [List.length_cons]; omega
    · split at h
      · simp at h
      · simp only [Option.map_eq_some_iff, Prod.mk.injEq] at h
        obtain ⟨found, hf, _, rfl⟩ := h
        have := ih (e := found.1) hf
        simp only [List.length_cons]; omega

theorem length_expression? {cs e after : List Char} (h : expression? cs = some (e, after)) :
    after.length < cs.length := by
  cases cs with
  | nil => simp [expression?] at h
  | cons c rest =>
    simp only [expression?] at h
    split at h
    · simp at h
    · simp only [Option.map_eq_some_iff, Prod.mk.injEq] at h
      obtain ⟨found, hf, _, rfl⟩ := h
      have := length_untilBraces (e := found.1) hf
      simp only [List.length_cons]; omega

/-- The placeholder at the start of a text, if there is one, and what follows it. -/
def placeholderAt? : List Char → Option (List Char × List Char)
  | '\x7b' :: '\x7b' :: rest => expression? rest
  | _ => none

theorem length_placeholderAt? {cs e after : List Char}
    (h : placeholderAt? cs = some (e, after)) : after.length < cs.length := by
  unfold placeholderAt? at h
  split at h
  · have := length_expression? h
    simp only [List.length_cons]; omega
  · simp at h

/-- Cut a text into placeholders and the characters between them. -/
def pieces (cs : List Char) : List Piece :=
  match _found : placeholderAt? cs with
  | some (e, after) => .placeholder e :: pieces after
  | none =>
    match cs with
    | [] => []
    | c :: rest => .char c :: pieces rest
termination_by cs.length
decreasing_by
  · exact length_placeholderAt? _found
  · simp

def Piece.isPlaceholder : Piece → Bool
  | .placeholder _ => true
  | .char _ => false

def holdsPlaceholder (cs : List Char) : Bool := (pieces cs).any Piece.isPlaceholder

/-- The expression of a text that is one placeholder from end to end. -/
def single? : List Char → Option (List Char)
  | '\x7b' :: '\x7b' :: rest =>
    let e := rest.take (rest.length - 2)
    if rest.drop (rest.length - 2) = ['\x7d', '\x7d'] ∧ e ≠ [] ∧ '\n' ∉ e then some e else none
  | _ => none

end FlowDocs.Template
