/-
  FlowDocs/Proofs/Template/References.lean
  ========================================
  **What a template refers to.**

  The expressions of a template are the interiors of the placeholders in its strings
  and in the names of its fields, at any depth; its references are the reference
  tokens of these expressions.  Both are read off the template alone.  Resolution
  sees a context through them only: two contexts that give the references the same
  values resolve the template alike (`resolve_congr`).
-/
import FlowDocs.Proofs.Expression.Shortcuts
import FlowDocs.Proofs.Json.Induction
import FlowDocs.Template.Resolution

namespace FlowDocs

/-- The path of a reference token. -/
def Token.path? : Token → Option String
  | .reference path => some path
  | _ => none

namespace Template

/-- The expression of a piece that is a placeholder. -/
def Piece.expression? : Piece → Option (List Char)
  | .placeholder e => some e
  | .char _ => none

/-- The expressions in the placeholders of a text. -/
def textExpressions (text : String) : List (List Char) :=
  match single? text.toList with
  | some e => [e]
  | none => (pieces text.toList).filterMap Piece.expression?

mutual

/-- The expressions in the placeholders of a template. -/
def expressions : Json → List (List Char)
  | .str text => textExpressions text
  | .arr items => itemExpressions items
  | .obj fields => entryExpressions fields
  | .null => []
  | .bool _ => []
  | .num _ => []

/-- The expressions in the items of an array. -/
def itemExpressions : List Json → List (List Char)
  | [] => []
  | item :: rest => expressions item ++ itemExpressions rest

/-- The expressions in the names and values of the fields of an object. -/
def entryExpressions : List (String × Json) → List (List Char)
  | [] => []
  | (name, value) :: rest => textExpressions name ++ expressions value ++ entryExpressions rest

end

/-- The references of an expression. -/
def expressionReferences (e : List Char) : List String :=
  (tokenize (Text.trim e)).filterMap Token.path?

/-- The references of a template. -/
def references (template : Json) : List String :=
  (expressions template).flatMap expressionReferences

end Template

/-! ### Expressions -/

variable {c₁ c₂ : Context}

theorem Token.resolve_congr {answers : Answers} {token : Token}
    (h : ∀ path ∈ token.path?,
      Lookup.reference answers c₁ path = Lookup.reference answers c₂ path) :
    token.resolve answers c₁ = token.resolve answers c₂ := by
  cases token with
  | literal value => rfl
  | operator op => rfl
  | reference path => rw [Token.resolve, h path rfl]; rfl

theorem Token.resolveAll_congr {tokens : List Token}
    (h : ∀ path ∈ tokens.filterMap Token.path?, ∀ answers,
      Lookup.reference answers c₁ path = Lookup.reference answers c₂ path) (supply : Supply) :
    Token.resolveAll supply c₁ tokens = Token.resolveAll supply c₂ tokens := by
  induction tokens generalizing supply with
  | nil => rfl
  | cons token rest ih =>
    have htoken : token.resolve supply.left.here c₁ = token.resolve supply.left.here c₂ := by
      apply Token.resolve_congr
      intro path hpath
      exact h path (List.mem_filterMap.mpr ⟨token, List.mem_cons_self, hpath⟩) _
    have hrest := ih (fun path hpath => by
      obtain ⟨token', hmem, hpath'⟩ := List.mem_filterMap.mp hpath
      exact h path (List.mem_filterMap.mpr ⟨token', List.mem_cons_of_mem _ hmem, hpath'⟩))
    rw [Token.resolveAll, Token.resolveAll, htoken, hrest]

theorem evaluate_congr {e : List Char}
    (h : ∀ path ∈ Template.expressionReferences e, ∀ answers,
      Lookup.reference answers c₁ path = Lookup.reference answers c₂ path) (supply : Supply) :
    evaluate supply c₁ e = evaluate supply c₂ e := by
  rw [evaluate_eq_plainly, evaluate_eq_plainly, evaluatePlainly, evaluatePlainly]
  cases htokens : tokenize (Text.trim e) with
  | nil => rfl
  | cons token rest =>
    have hresolved : Token.resolveAll supply c₁ (token :: rest)
        = Token.resolveAll supply c₂ (token :: rest) :=
      Token.resolveAll_congr (by rw [← htokens]; exact h) supply
    dsimp only
    rw [hresolved]

/-! ### Templates -/

namespace Template

theorem render_congr {items : List Piece}
    (h : ∀ e ∈ items.filterMap Piece.expression?, ∀ supply,
      evaluate supply c₁ e = evaluate supply c₂ e) (supply : Supply) :
    render supply c₁ items = render supply c₂ items := by
  induction items generalizing supply with
  | nil => rfl
  | cons piece rest ih =>
    cases piece with
    | char c => rw [render, render, ih h]
    | placeholder e =>
      have hrest := ih (fun e' he' => h e' (List.mem_cons_of_mem e he'))
      rw [render, render, h e List.mem_cons_self, hrest]

theorem resolveText_congr {text : String}
    (h : ∀ e ∈ textExpressions text, ∀ supply, evaluate supply c₁ e = evaluate supply c₂ e)
    (supply : Supply) : resolveText supply c₁ text = resolveText supply c₂ text := by
  unfold textExpressions at h
  rw [resolveText, resolveText]
  cases hsingle : single? text.toList with
  | some e =>
    rw [hsingle] at h
    exact h e List.mem_cons_self supply
  | none =>
    rw [hsingle] at h
    dsimp only at h ⊢
    rw [render_congr h]

theorem resolveItems_congr {items : List Json}
    (h : ∀ item ∈ items, ∀ supply, resolve supply c₁ item = resolve supply c₂ item)
    (supply : Supply) : resolveItems supply c₁ items = resolveItems supply c₂ items := by
  induction items generalizing supply with
  | nil => rfl
  | cons item rest ih =>
    have hrest := ih fun item' hmem => h item' (List.mem_cons_of_mem item hmem)
    rw [resolveItems, resolveItems, h item List.mem_cons_self, hrest]

theorem resolveEntries_congr {fields : List (String × Json)}
    (hname : ∀ entry ∈ fields, ∀ supply,
      resolveText supply c₁ entry.1 = resolveText supply c₂ entry.1)
    (hvalue : ∀ entry ∈ fields, ∀ supply, resolve supply c₁ entry.2 = resolve supply c₂ entry.2)
    (supply : Supply) : resolveEntries supply c₁ fields = resolveEntries supply c₂ fields := by
  induction fields generalizing supply with
  | nil => rfl
  | cons entry rest ih =>
    obtain ⟨name, value⟩ := entry
    have hrest := ih (fun entry' hmem => hname entry' (List.mem_cons_of_mem _ hmem))
      (fun entry' hmem => hvalue entry' (List.mem_cons_of_mem _ hmem))
    have hhead := hname (name, value) List.mem_cons_self
    have htail := hvalue (name, value) List.mem_cons_self
    simp only [resolveEntries, resolveName, hhead, htail, hrest]

theorem itemExpressions_eq_flatMap (items : List Json) :
    itemExpressions items = items.flatMap expressions := by
  induction items with
  | nil => rfl
  | cons item rest ih => rw [itemExpressions, ih, List.flatMap_cons]

theorem entryExpressions_eq_flatMap (fields : List (String × Json)) :
    entryExpressions fields
      = fields.flatMap fun entry => textExpressions entry.1 ++ expressions entry.2 := by
  induction fields with
  | nil => rfl
  | cons entry rest ih =>
    obtain ⟨name, value⟩ := entry
    rw [entryExpressions, ih, List.flatMap_cons]

/-- **Resolution reads the context through the expressions of the template alone.** -/
theorem resolve_congr_of_expressions (template : Json)
    (h : ∀ e ∈ expressions template, ∀ supply,
      evaluate supply c₁ e = evaluate supply c₂ e) (supply : Supply) :
    resolve supply c₁ template = resolve supply c₂ template := by
  induction template using Json.induction generalizing supply with
  | null => rfl
  | bool b => rfl
  | num n => rfl
  | str text =>
    rw [expressions] at h
    rw [resolve, resolve, resolveText_congr h]
  | arr items ih =>
    rw [expressions, itemExpressions_eq_flatMap] at h
    have hitem : ∀ item ∈ items, ∀ supply, resolve supply c₁ item = resolve supply c₂ item := by
      intro item hmem
      exact ih item hmem fun e he => h e (List.mem_flatMap.mpr ⟨item, hmem, he⟩)
    rw [resolve, resolve, resolveItems_congr hitem]
  | obj fields ih =>
    rw [expressions, entryExpressions_eq_flatMap] at h
    have hentry : ∀ entry ∈ fields, ∀ e ∈ textExpressions entry.1 ++ expressions entry.2,
        ∀ supply, evaluate supply c₁ e = evaluate supply c₂ e := by
      intro entry hmem e he
      exact h e (List.mem_flatMap.mpr ⟨entry, hmem, he⟩)
    have hname : ∀ entry ∈ fields, ∀ supply,
        resolveText supply c₁ entry.1 = resolveText supply c₂ entry.1 := by
      intro entry hmem
      exact resolveText_congr fun e he => hentry entry hmem e (List.mem_append_left _ he)
    have hvalue : ∀ entry ∈ fields, ∀ supply,
        resolve supply c₁ entry.2 = resolve supply c₂ entry.2 := by
      intro entry hmem
      exact ih entry hmem fun e he => hentry entry hmem e (List.mem_append_right _ he)
    rw [resolve, resolve, resolveEntries_congr hname hvalue]

/-- Contexts that agree on the references of a template resolve it alike. -/
theorem resolve_congr {template : Json}
    (h : ∀ path ∈ references template, ∀ answers,
      Lookup.reference answers c₁ path = Lookup.reference answers c₂ path) (supply : Supply) :
    resolve supply c₁ template = resolve supply c₂ template := by
  apply resolve_congr_of_expressions
  intro e he
  apply evaluate_congr
  intro path hpath
  exact h path (List.mem_flatMap.mpr ⟨e, he, hpath⟩)

end Template
end FlowDocs
