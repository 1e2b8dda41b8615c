/-
  FlowDocs/Proofs/Template/FixedPoints.lean
  =========================================
  **A template without placeholders resolves to itself.**

  There are two readings of a text: as one placeholder from end to end, and as literal text
  with placeholders in it.  What the first reading accepts the second one finds as well, so
  in a template none of whose strings and names holds a placeholder there is no expression
  at all.  Every string and every name then stands for itself, and the template is rebuilt
  from its own parts, each in its place.
-/
import FlowDocs.Proofs.Json.Entries
import FlowDocs.Proofs.Json.Subvalues
import FlowDocs.Proofs.Template.References
import FlowDocs.Proofs.Template.Rendering

namespace FlowDocs.Template

/-! ### Nothing to evaluate -/

theorem textExpressions_of_no_placeholder {text : String}
    (h : holdsPlaceholder text.toList = false) : textExpressions text = [] := by
  rw [textExpressions, single?_of_no_placeholder h]
  refine List.filterMap_eq_nil_iff.mpr ?_
  intro piece hpiece
  cases piece with
  | char c => rfl
  | placeholder e =>
    have hany := List.any_eq_false.mp h _ hpiece
    exact absurd rfl hany

theorem expressions_of_no_placeholder {template : Json}
    (h : ∀ text ∈ template.texts, holdsPlaceholder text.toList = false) :
    expressions template = [] := by
  induction template using Json.induction with
  | null => rfl
  | bool b => rfl
  | num n => rfl
  | str text => exact textExpressions_of_no_placeholder (Json.forall_texts_str.mp h)
  | arr items ih =>
    rw [Json.forall_texts_arr] at h
    rw [expressions, itemExpressions_eq_flatMap, List.flatMap_eq_nil_iff]
    intro item hmem
    exact ih item hmem (h item hmem)
  | obj fields ih =>
    obtain ⟨hnames, hvalues⟩ := Json.forall_texts_obj.mp h
    rw [expressions, entryExpressions_eq_flatMap, List.flatMap_eq_nil_iff]
    intro field hmem
    have hname := hnames field.1 (List.mem_map_of_mem hmem)
    rw [textExpressions_of_no_placeholder hname, ih field hmem (hvalues field hmem)]
    rfl

/-! ### Rebuilding -/

section
variable {context : Context}

theorem resolveName_of_no_placeholder {name : String} (h : holdsPlaceholder name.toList = false)
    (supply : Supply) : resolveName supply context name = name := by
  rw [resolveName, resolveText_of_no_placeholder h, display]
  exact String.ofList_toList

theorem resolveItems_eq_self {items : List Json}
    (h : ∀ item ∈ items, ∀ supply, resolve supply context item = item) (supply : Supply) :
    resolveItems supply context items = items := by
  induction items generalizing supply with
  | nil => rfl
  | cons item rest ih =>
    obtain ⟨hitem, hrest⟩ := List.forall_mem_cons.mp h
    rw [resolveItems, hitem, ih hrest]

theorem resolveEntries_eq_self {fields : Json.Object}
    (hname : ∀ name ∈ Fields.names fields, ∀ supply, resolveName supply context name = name)
    (hvalue : ∀ field ∈ fields, ∀ supply, resolve supply context field.2 = field.2)
    (supply : Supply) : resolveEntries supply context fields = fields := by
  induction fields generalizing supply with
  | nil => rfl
  | cons field rest ih =>
    obtain ⟨name, value⟩ := field
    obtain ⟨hfirst, hnames⟩ := List.forall_mem_cons.mp hname
    obtain ⟨hhead, hvalues⟩ := List.forall_mem_cons.mp hvalue
    rw [resolveEntries, hfirst, hhead, ih hnames hvalues]

/-- A template without placeholders resolves to itself, kinds of numbers and order of fields
    included. -/
theorem resolve_of_no_placeholder {template : Json} (hdistinct : template.Distinct)
    (h : ∀ text ∈ template.texts, holdsPlaceholder text.toList = false) (supply : Supply) :
    resolve supply context template = template := by
  induction template using Json.induction generalizing supply with
  | null => rfl
  | bool b => rfl
  | num n => rfl
  | str text =>
    rw [resolve, resolveText_of_no_placeholder (Json.forall_texts_str.mp h), Option.getD_some]
  | arr items ih =>
    rw [Json.forall_texts_arr] at h
    rw [Json.distinct_arr] at hdistinct
    have hitems : ∀ item ∈ items, ∀ supply, resolve supply context item = item :=
      fun item hmem => ih item hmem (hdistinct item hmem) (h item hmem)
    rw [resolve, resolveItems_eq_self hitems]
  | obj fields ih =>
    obtain ⟨hnames, hvalues⟩ := Json.forall_texts_obj.mp h
    obtain ⟨hnodup, hbelow⟩ := Json.distinct_obj.mp hdistinct
    have hname : ∀ name ∈ Fields.names fields, ∀ supply, resolveName supply context name = name :=
      fun name hmem => resolveName_of_no_placeholder (hnames name hmem)
    have hvalue : ∀ field ∈ fields, ∀ supply, resolve supply context field.2 = field.2 :=
      fun field hmem => ih field hmem (hbelow field hmem) (hvalues field hmem)
    rw [resolve, resolveEntries_eq_self hname hvalue, Fields.ofEntries_of_nodup hnodup]

end

/-- **Templates without placeholders are fixed points.**  What is one placeholder from end to
    end holds a placeholder.  So if no string and no name in a template holds one, there is no
    expression in it, and it resolves to itself in every context; its objects, as all objects
    in memory, repeat no name. -/
theorem markerless_fixed_point :
    (∀ template : Json, template.Distinct →
      (∀ text ∈ template.texts, holdsPlaceholder text.toList = false) →
      expressions template = [] ∧
      ∀ supply context, resolve supply context template = template) ∧
    (∀ text e, IsSingle text e → holdsPlaceholder text.toList = true) := by
  refine ⟨?_, ?_⟩
  · intro template hdistinct h
    exact ⟨expressions_of_no_placeholder h,
      fun supply _ => resolve_of_no_placeholder hdistinct h supply⟩
  · intro text e h
    exact holdsPlaceholder_of_single? (single?_eq_some_iff.mpr h)

/-- Empty braces, braces on two lines and lone braces are no placeholders. -/
def lookAlikes : Json :=
  .obj [("\x7b\x7b\x7d\x7d", .arr [.num (.double 5.0), .str "\x7b\x7ba\n\x7d\x7d", .null]),
    ("a", .obj [("\x7ba\x7d", .num (.integer 5)), ("\x7d\x7d \x7b\x7b", .bool true)])]

theorem markerless_fixed_point_lookAlikes :
    (lookAlikes.Distinct ∧
      (∀ text ∈ lookAlikes.texts, holdsPlaceholder text.toList = false) ∧
      expressions lookAlikes = [] ∧
      ∀ supply context, resolve supply context lookAlikes = lookAlikes) ∧
    holdsPlaceholder "\x7b\x7ba\x7d\x7d \x7b\x7bb\x7d\x7d".toList = true := by
  have hdistinct : lookAlikes.Distinct := by decide
  have hlist : lookAlikes.texts
      = ["\x7b\x7ba\n\x7d\x7d", "\x7b\x7b\x7d\x7d", "a", "\x7ba\x7d", "\x7d\x7d \x7b\x7b"] := by
    decide
  have htexts : ∀ text ∈ lookAlikes.texts, holdsPlaceholder text.toList = false := by
    simp only [hlist, List.forall_mem_cons]
    refine ⟨?_, ?_, ?_, ?_, ?_, List.forall_mem_nil _⟩ <;> cbv
  refine ⟨⟨hdistinct, htexts, markerless_fixed_point.1 lookAlikes hdistinct htexts⟩, ?_⟩
  exact markerless_fixed_point.2 _ "a\x7d\x7d \x7b\x7bb".toList ⟨by decide, by decide, by decide⟩

end FlowDocs.Template
