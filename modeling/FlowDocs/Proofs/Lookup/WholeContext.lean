/-
  FlowDocs/Proofs/Lookup/WholeContext.lean
  ========================================
  **A reference is a path into the context as one value.**

  A reference is looked up by cases: two fronts lead into one part of the context
  alone, other paths are tried among the step outputs, and then the first segment
  decides between the parts and the extra fields.  Written out as one value, the
  context is walked down by the segments of the path and nothing else.  The cases
  come to the same as that walk, with the step outputs in front of it.
-/
import FlowDocs.Proofs.Context.Parts
import FlowDocs.Proofs.Lookup.Segments

namespace FlowDocs

variable {context : Context}

/-! ### What stands at the top of a context -/

theorem Context.child_toJson (context : Context) (name : String) :
    Lookup.child context.toJson name
      = (Fields.get? context.extra name).or (Fields.get? context.parts name) :=
  Fields.get?_overlay context.parts context.extra name

theorem Context.Separate.child_part (h : context.Separate) {name : String}
    (hname : name ∈ ["inputs", "steps", "env"]) :
    Lookup.child context.toJson name = Fields.get? context.parts name := by
  have hextra : Fields.get? context.extra name = none := Fields.get?_eq_none_iff.mpr (h name hname)
  rw [context.child_toJson, hextra, Option.none_or]

theorem Context.child_extra {name : String} (hname : name ∉ ["inputs", "steps", "env"]) :
    Lookup.child context.toJson name = Fields.get? context.extra name := by
  have hparts : Fields.get? context.parts name = none := Fields.get?_eq_none_iff.mpr hname
  rw [context.child_toJson, hparts, Option.or_none]

namespace Lookup

/-! ### Walking down -/

theorem descend_cons (value : Json) (segment : String) (rest : List String) :
    descend value (segment :: rest)
      = (child value segment).bind fun inner => descend inner rest := by
  rw [descend]
  cases child value segment <;> rfl

theorem descend_obj (fields : Json.Object) {names : List String} (h : names ≠ []) :
    descend (.obj fields) names = descendFields fields names := by
  cases names with
  | nil => exact absurd rfl h
  | cons first rest => rw [descend_cons]; rfl

theorem inFields_eq_inValue (fields : Json.Object) (path : String) :
    inFields fields path = inValue (.obj fields) path := by
  rw [inFields, inValue, descend_obj fields (segments_ne_nil path)]
  simp only [reduceCtorEq, false_or]

theorem inPart_eq_descend (fields : Json.Object) (rest : List String) :
    inPart fields rest = descend (.obj fields) rest := by
  cases rest with
  | nil => rfl
  | cons name rest => rw [inPart, descend_obj fields (List.cons_ne_nil name rest)]

/-- Variables hold text, and there is nothing inside a text. -/
theorem inEnv_eq_descend (env : Variables) (rest : List String) :
    inEnv env rest = descend env.toJson rest := by
  cases rest with
  | nil => rfl
  | cons name rest =>
    have hchild : child env.toJson name = (Fields.get? env name).map .str :=
      Fields.get?_map (fun _ => Json.str) env name
    rw [descend_cons, hchild, inEnv]
    cases rest with
    | nil =>
      rw [variableAt?]
      cases Fields.get? env name <;> rfl
    | cons next rest => cases Fields.get? env name <;> rfl

/-- Looking into the context as a whole is walking down its value. -/
theorem inContext_eq_inValue (h : context.Separate) (path : String) :
    inContext context path = inValue context.toJson path := by
  by_cases hempty : path = ""
  · rw [inContext, inValue, if_pos hempty, if_pos (Or.inr hempty)]
  obtain ⟨first, rest, hsegments⟩ := List.exists_cons_of_ne_nil (segments_ne_nil path)
  have hroot : ¬ (context.toJson = .null ∨ path = "") := by
    rintro (hnull | hpath)
    · cases hnull
    · exact hempty hpath
  rw [inContext, inValue, if_neg hempty, if_neg hroot, hsegments, descend_cons]
  dsimp only
  -- the first segment names a part, or an extra field if it names none
  by_cases hinputs : first = "inputs"
  · have hchild : child context.toJson first = some (.obj context.inputs) := by
      rw [hinputs, h.child_part (by decide)]; rfl
    rw [if_pos hinputs, hchild, inPart_eq_descend]; rfl
  by_cases hsteps : first = "steps"
  · have hchild : child context.toJson first = some (.obj context.steps) := by
      rw [hsteps, h.child_part (by decide)]; rfl
    rw [if_neg hinputs, if_pos hsteps, hchild, inPart_eq_descend]; rfl
  by_cases henv : first = "env"
  · have hchild : child context.toJson first = some context.env.toJson := by
      rw [henv, h.child_part (by decide)]; rfl
    rw [if_neg hinputs, if_neg hsteps, if_pos henv, hchild, inEnv_eq_descend]; rfl
  · have hchild : child context.toJson first = Fields.get? context.extra first :=
      Context.child_extra (by simp [hinputs, hsteps, henv])
    rw [if_neg hinputs, if_neg hsteps, if_neg henv, hchild]; rfl

/-! ### The fronts

The fronts `env.` and `inputs.` lead where the first segment would have led. -/

theorem variableAt?_eq_inContext (context : Context) (rest : List Char) :
    variableAt? context.env (segments (String.ofList rest))
      = inContext context (String.ofList ("env".toList ++ '.' :: rest)) := by
  obtain ⟨name, more, hsegments⟩ :=
    List.exists_cons_of_ne_nil (segments_ne_nil (String.ofList rest))
  rw [inContext, if_neg (by simp), segments_front (by decide) (by decide), hsegments]
  rfl

theorem inFields_eq_inContext (context : Context) {rest : List Char} (hrest : rest ≠ []) :
    inFields context.inputs (String.ofList rest)
      = inContext context (String.ofList ("inputs".toList ++ '.' :: rest)) := by
  obtain ⟨name, more, hsegments⟩ :=
    List.exists_cons_of_ne_nil (segments_ne_nil (String.ofList rest))
  have hne : String.ofList rest ≠ "" := by
    rw [Ne, String.ofList_eq_empty_iff]
    exact hrest
  rw [inContext, if_neg (by simp), segments_front (by decide) (by decide), inFields, if_neg hne,
    hsegments]
  rfl

theorem path?_of_front {path : String}
    (h : "env.".toList <+: path.toList ∨ "inputs.".toList <+: path.toList)
    (henv : path ≠ "env.") (hinputs : path ≠ "inputs.") :
    path? context path = inContext context path := by
  unfold path?
  cases hstrip : stripFront? "env.".toList path.toList with
  | some rest =>
    have htext := stripFront?_eq_some_iff.mp hstrip
    have hrest : rest ≠ [] := by
      rintro rfl
      exact henv (String.toList_inj.mp htext)
    have hpath : path = String.ofList ("env".toList ++ '.' :: rest) := by
      rw [← String.toList_inj, htext]
      simp
    dsimp only
    rw [if_neg hrest, variableAt?_eq_inContext, ← hpath]
  | none =>
    obtain ⟨rest, htext⟩ := h.resolve_left (stripFront?_eq_none_iff.mp hstrip)
    have hrest : rest ≠ [] := by
      rintro rfl
      exact hinputs (String.toList_inj.mp htext.symm)
    have hpath : path = String.ofList ("inputs".toList ++ '.' :: rest) := by
      rw [← String.toList_inj, ← htext]
      simp
    dsimp only
    rw [stripFront?_eq_some_iff.mpr htext.symm]
    dsimp only
    rw [inFields_eq_inContext context hrest, ← hpath]

/-- Without one of the fronts the step outputs are asked first. -/
theorem path?_of_no_front {path : String} (henv : ¬ "env.".toList <+: path.toList)
    (hinputs : ¬ "inputs.".toList <+: path.toList) :
    path? context path = (inFields context.steps path).or (inContext context path) := by
  unfold path?
  rw [stripFront?_eq_none_iff.mpr henv]
  dsimp only
  rw [stripFront?_eq_none_iff.mpr hinputs]
  dsimp only
  cases inFields context.steps path <;> rfl

/-- **References are paths into the context as one value.**  A path that starts with
    `env.` or `inputs.` has the value found by walking down the whole context; any
    other path has the value found among the step outputs, or else that of the walk.
    Looking among fields is walking down their object, and a context that was read
    from a value keeps its extra fields apart from its parts. -/
theorem reference_eq_walk :
    (∀ (answers : Answers) (context : Context) (path : String), context.Separate →
      path ∉ ["now", "uuid", "env.", "inputs."] →
      ("env.".toList <+: path.toList ∨ "inputs.".toList <+: path.toList →
        reference answers context path = inValue context.toJson path) ∧
      (¬ ("env.".toList <+: path.toList ∨ "inputs.".toList <+: path.toList) →
        reference answers context path
          = (inFields context.steps path).or (inValue context.toJson path))) ∧
    (∀ (fields : Json.Object) (path : String), inFields fields path = inValue (.obj fields) path) ∧
    (∀ value : Json, (∀ fields ∈ value.fields?, (Fields.names fields).Nodup) →
      (Context.ofJson value).Separate) := by
  refine ⟨?_, inFields_eq_inValue, fun value h => Context.separate_ofJson h⟩
  intro answers context path hseparate hpath
  simp only [List.mem_cons, List.not_mem_nil, or_false, not_or] at hpath
  obtain ⟨hnow, huuid, henv, hinputs⟩ := hpath
  have hreference : reference answers context path = path? context path := by
    rw [reference, Builtin.ofName?, if_neg hnow, if_neg huuid]
  constructor
  · intro hfront
    rw [hreference, path?_of_front hfront henv hinputs, inContext_eq_inValue hseparate]
  · intro hfront
    obtain ⟨hnoEnv, hnoInputs⟩ := not_or.mp hfront
    rw [hreference, path?_of_no_front hnoEnv hnoInputs, inContext_eq_inValue hseparate]

/-- A bracket right behind the part, and a step output in front of an extra field. -/
theorem reference_region :
    reference ⟨"noon", "id"⟩ { inputs := [("", .obj [("0", .bool true)])] } "inputs.[0]"
        = some (.bool true) ∧
      reference ⟨"noon", "id"⟩
        { steps := [("region", .str "north")], extra := [("region", .str "south")] } "region"
        = some (.str "north") ∧
      (Context.ofJson (.obj [("env", .null), ("region", .str "south")])).Separate := by
  refine ⟨?_, ?_, ?_⟩
  · rw [(reference_eq_walk.1 ⟨"noon", "id"⟩ { inputs := [("", .obj [("0", .bool true)])] }
      "inputs.[0]" (by decide) (by decide)).1 (Or.inr (by decide))]
    cbv
  · rw [(reference_eq_walk.1 ⟨"noon", "id"⟩
      { steps := [("region", .str "north")], extra := [("region", .str "south")] }
      "region" (by decide) (by decide)).2 (by decide)]
    cbv
  · apply reference_eq_walk.2.2
    intro fields hfields
    cases hfields
    decide

end Lookup
end FlowDocs
