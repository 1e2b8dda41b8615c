/-
  FlowDocs/Proofs/Template/Rendering.lean
  =======================================
  **The value of a template string.**

  A text that is one placeholder from end to end has the value of its expression,
  of whatever kind.  Every other text has a string for its value: the text with each
  placeholder replaced, once and from left to right, by the text of its own value.
  What a placeholder is replaced with is not looked at again, even if it looks like
  a placeholder itself.
-/
import FlowDocs.Proofs.Template.Placeholders
import FlowDocs.Template.Resolution

namespace FlowDocs.Template

/-! ### Texts with placeholders in them -/

/-- The text is one placeholder for `e`: at least one character, on one line. -/
def IsSingle (text : String) (e : List Char) : Prop :=
  text.toList = '\x7b' :: '\x7b' :: (e ++ ['\x7d', '\x7d']) ∧ e ≠ [] ∧ '\n' ∉ e

/-- Literal text with placeholders in it: the text in front of the first one, and
    each expression with the literal text after its placeholder. -/
structure Mixed where
  opening : List Char
  parts : List (List Char × List Char)

namespace Mixed

/-- The expressions between double braces, with the literal texts around them. -/
def writtenParts (parts : List (List Char × List Char)) : List Char :=
  parts.flatMap fun part => '\x7b' :: '\x7b' :: (part.1 ++ '\x7d' :: '\x7d' :: part.2)

def text (mixed : Mixed) : String := String.ofList (mixed.opening ++ writtenParts mixed.parts)

/-- The texts of the values, with the literal texts around them. -/
def renderedParts (supply : Supply) (context : Context) : List (List Char × List Char) → List Char
  | [] => []
  | (e, literal) :: rest =>
    displayText (evaluate supply.left context e) ++ literal ++
      renderedParts supply.right context rest

def rendered (supply : Supply) (context : Context) (mixed : Mixed) : String :=
  String.ofList (mixed.opening ++ renderedParts supply context mixed.parts)

/-- An expression and the literal text after it hold no braces; the expression is not
    empty and stays on one line. -/
structure PlainPart (part : List Char × List Char) : Prop where
  ne_nil : part.1 ≠ []
  expression : ∀ c ∈ part.1, c ≠ '\x7b' ∧ c ≠ '\x7d' ∧ c ≠ '\n'
  literal : ∀ c ∈ part.2, c ≠ '\x7b' ∧ c ≠ '\x7d'

/-- The literal texts and the expressions hold no braces, and literal text stands at
    one end at least. -/
structure Plain (mixed : Mixed) : Prop where
  opening : ∀ c ∈ mixed.opening, c ≠ '\x7b' ∧ c ≠ '\x7d'
  parts : ∀ part ∈ mixed.parts, PlainPart part
  ends : mixed.opening ≠ [] ∨ ∃ part ∈ mixed.parts.getLast?, part.2 ≠ []

end Mixed

/-! ### Rendering pieces -/

theorem render_chars_append (supply : Supply) (context : Context) (literal : List Char)
    (more : List Piece) :
    render supply context (literal.map .char ++ more) = literal ++ render supply context more := by
  induction literal with
  | nil => rfl
  | cons c literal ih =>
    simp only [List.map_cons, List.cons_append, render, ih]

/-- Without a placeholder the pieces are rendered as they are. -/
theorem render_of_no_placeholder (supply : Supply) (context : Context) {items : List Piece}
    (h : items.any Piece.isPlaceholder = false) :
    render supply context items = items.flatMap Piece.text := by
  induction items with
  | nil => rfl
  | cons piece items ih =>
    simp only [List.any_cons, Bool.or_eq_false_iff] at h
    cases piece with
    | char c => rw [render, ih h.2]; rfl
    | placeholder e => exact absurd h.1 Bool.noConfusion

/-- What is not one placeholder is rendered piece by piece. -/
theorem resolveText_of_not_single {text : String} (h : single? text.toList = none)
    (supply : Supply) (context : Context) :
    resolveText supply context text
      = some (.str (String.ofList (render supply context (pieces text.toList)))) := by
  rw [resolveText, h]
  dsimp only
  split
  · rfl
  · rename_i hnone
    have hrender := render_of_no_placeholder supply context (Bool.eq_false_iff.mpr hnone)
    rw [hrender, flatMap_text_pieces, String.ofList_toList]

/-- A text without a placeholder stands for itself. -/
theorem resolveText_of_no_placeholder {text : String} (h : holdsPlaceholder text.toList = false)
    (supply : Supply) (context : Context) :
    resolveText supply context text = some (.str text) := by
  rw [resolveText, single?_of_no_placeholder h, h]
  rfl

theorem single?_eq_none_iff {text : String} :
    single? text.toList = none ↔ ¬ ∃ e, IsSingle text e := by
  rw [Option.eq_none_iff_forall_ne_some, not_exists]
  exact forall_congr' fun e => not_congr single?_eq_some_iff

/-! ### Rendering mixed text -/

namespace Mixed

theorem PlainPart.pieces_cons {part : List Char × List Char} (h : PlainPart part)
    (rest : List (List Char × List Char)) :
    pieces (writtenParts (part :: rest))
      = .placeholder part.1 :: (part.2.map .char ++ pieces (writtenParts rest)) := by
  have hbrace : '\x7d' ∉ part.1 := fun hc => (h.expression _ hc).2.1 rfl
  have hline : '\n' ∉ part.1 := fun hc => (h.expression _ hc).2.2 rfl
  have hliteral : '\x7b' ∉ part.2 := fun hc => (h.literal _ hc).1 rfl
  have hwritten : writtenParts (part :: rest)
      = (Piece.placeholder part.1).text ++ (part.2 ++ writtenParts rest) := by
    simp [writtenParts, Piece.text]
  rw [hwritten, pieces_placeholder h.ne_nil hbrace hline, pieces_append_of_not_mem hliteral]

theorem render_writtenParts (supply : Supply) (context : Context)
    {parts : List (List Char × List Char)} (h : ∀ part ∈ parts, PlainPart part) :
    render supply context (pieces (writtenParts parts)) = renderedParts supply context parts := by
  induction parts generalizing supply with
  | nil => rw [writtenParts, List.flatMap_nil, pieces_nil]; rfl
  | cons part rest ih =>
    have hpart := h part List.mem_cons_self
    have hrest := ih supply.right fun part' hmem => h part' (List.mem_cons_of_mem part hmem)
    rw [hpart.pieces_cons, render, render_chars_append, hrest, renderedParts,
      List.append_assoc]

/-- Literal text at one end keeps a mixed text from being one placeholder. -/
theorem Plain.single?_eq_none {mixed : Mixed} (h : mixed.Plain) :
    single? mixed.text.toList = none := by
  rw [Mixed.text, String.toList_ofList, Option.eq_none_iff_forall_ne_some]
  intro e hsingle
  obtain ⟨heq, -, -⟩ := single?_eq_some_iff.mp hsingle
  rcases h.ends with hopening | ⟨part, hpart, hlast⟩
  · -- the text starts with a literal character
    obtain ⟨c, opening, hc⟩ := List.exists_cons_of_ne_nil hopening
    rw [hc, List.cons_append, List.cons.injEq] at heq
    exact (h.opening c (by simp [hc])).1 heq.1
  · -- the text ends with a literal character
    obtain ⟨front, hfront⟩ := List.getLast?_eq_some_iff.mp hpart
    obtain ⟨literal, c, hc⟩ := (List.eq_nil_or_concat part.2).resolve_left hlast
    have hend : c = '\x7d' := by
      simpa [hfront, writtenParts, hc, List.getLast?_append, List.getLast?_cons]
        using congrArg List.getLast? heq
    exact ((h.parts part (by simp [hfront])).literal c (by simp [hc])).2 hend

theorem resolveText_of_plain {mixed : Mixed} (h : mixed.Plain) (supply : Supply)
    (context : Context) :
    resolveText supply context mixed.text = some (.str (mixed.rendered supply context)) := by
  have hopening : '\x7b' ∉ mixed.opening := fun hc => (h.opening _ hc).1 rfl
  have hparts := render_writtenParts supply context h.parts
  rw [resolveText_of_not_single h.single?_eq_none, Mixed.text, String.toList_ofList,
    pieces_append_of_not_mem hopening, render_chars_append, hparts]
  rfl

end Mixed

/-- **Typing and rendering.**  One placeholder from end to end gives the value of its
    expression; every other text gives a string; and in a mixed text every placeholder
    is replaced by the text of its own value and nothing else is touched. -/
theorem resolveText_native_or_rendered (supply : Supply) (context : Context) :
    (∀ text e, IsSingle text e → resolveText supply context text = evaluate supply context e) ∧
      (∀ text, (¬ ∃ e, IsSingle text e) →
        ∃ result, resolveText supply context text = some (.str result)) ∧
      (∀ mixed : Mixed, mixed.Plain →
        resolveText supply context mixed.text = some (.str (mixed.rendered supply context))) := by
  refine ⟨?_, ?_, ?_⟩
  · intro text e h
    rw [resolveText, single?_eq_some_iff.mpr h]
  · intro text h
    have hnone : single? text.toList = none := by
      rw [Option.eq_none_iff_forall_ne_some]
      intro e hsingle
      exact h ⟨e, single?_eq_some_iff.mp hsingle⟩
    exact ⟨_, resolveText_of_not_single hnone supply context⟩
  · intro mixed h
    exact Mixed.resolveText_of_plain h supply context

/-- A value that looks like a placeholder stays as it is. -/
theorem resolveText_look_alike :
    resolveText (.constant ⟨"noon", "id"⟩) { extra := [("a", .bool true)] }
        "\x7b\x7ba\x7d\x7d \x7b\x7bb\x7d\x7d" = some (.bool true) ∧
      (∃ result, resolveText (.constant ⟨"noon", "id"⟩) { extra := [("a", .bool true)] }
        " \x7b\x7ba\x7d\x7d" = some (.str result)) ∧
      resolveText (.constant ⟨"noon", "id"⟩)
        { extra := [("a", .str "\x7b\x7bb\x7d\x7d"), ("b", .bool true)] }
        " \x7b\x7ba\x7d\x7d\x7b\x7bb\x7d\x7d!" = some (.str " \x7b\x7bb\x7d\x7dtrue!") := by
  refine ⟨?_, ?_, ?_⟩
  · rw [(resolveText_native_or_rendered _ _).1 _ "a\x7d\x7d \x7b\x7bb".toList
      ⟨by decide, by decide, by decide⟩]
    cbv
  · refine (resolveText_native_or_rendered _ _).2.1 _ ?_
    rintro ⟨e, h, -⟩
    exact absurd (List.cons.inj h).1 (by decide)
  · have hparts : ∀ part ∈ [(['a'], []), (['b'], ['!'])], Mixed.PlainPart part := by
      rw [List.forall_mem_cons, List.forall_mem_singleton]
      exact ⟨⟨by simp, by simp, by simp⟩, ⟨by simp, by simp, by simp⟩⟩
    have hplain : (Mixed.mk [' '] [(['a'], []), (['b'], ['!'])]).Plain :=
      ⟨by simp, hparts, Or.inl (by simp)⟩
    refine ((resolveText_native_or_rendered _ _).2.2 _ hplain).trans ?_
    cbv

end FlowDocs.Template
