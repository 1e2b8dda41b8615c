/-
  FlowDocs/Proofs/Template/NonInterference.lean
  =============================================
  **What a template does not refer to cannot be seen in its result.**

  The result of a template depends on the context through the values of its own
  references.  In particular the environment stays out of every template none of
  whose references starts with the segment `env`, however the path is written and
  whatever texts the other parts of the context hold: a text that has been put in is
  never read as a template.
-/
import FlowDocs.Proofs.Lookup.Segments
import FlowDocs.Proofs.Template.References

namespace FlowDocs

namespace Lookup

/-- The answers of the world do not depend on the context, nor the context on them. -/
theorem reference_congr {answers : Answers} {c₁ c₂ : Context} {path : String}
    (h : reference answers c₁ path = reference answers c₂ path) (answers' : Answers) :
    reference answers' c₁ path = reference answers' c₂ path := by
  unfold reference at h ⊢
  cases hname : Builtin.ofName? path with
  | some builtin => rfl
  | none =>
    rw [hname] at h
    exact h

theorem inContext_env {context : Context} {path : String}
    (h : (segments path).head? ≠ some "env") (env : Variables) :
    inContext { context with env := env } path = inContext context path := by
  unfold inContext
  cases hsegments : segments path with
  | nil => rfl
  | cons first rest =>
    have hfirst := first_ne hsegments h
    simp only [if_neg hfirst]

/-- A path whose first segment is not `env` reads nothing of the environment. -/
theorem reference_env {context : Context} {path : String}
    (h : (segments path).head? ≠ some "env") (answers : Answers) (env : Variables) :
    reference answers { context with env := env } path = reference answers context path := by
  unfold reference
  cases Builtin.ofName? path with
  | some builtin => rfl
  | none =>
    dsimp only
    unfold path?
    cases hfront : stripFront? "env.".toList path.toList with
    | some rest =>
      have hstart : "env".toList ++ ['.'] <+: path.toList :=
        ⟨rest, (stripFront?_eq_some_iff.mp hfront).symm⟩
      obtain ⟨path', hsegments⟩ := segments_of_front (by decide) (by decide) hstart
      exact absurd (congrArg List.head? hsegments) h
    | none => rw [inContext_env h]

end Lookup

namespace Template

/-- **Non-interference.**  Contexts that agree on the references of a template resolve
    it to the same value, and a template without a reference to the environment is
    resolved to the same value in every environment. -/
theorem resolve_noninterference (template : Json) :
    (∀ (answers : Answers) (c₁ c₂ : Context),
      (∀ path ∈ references template,
        Lookup.reference answers c₁ path = Lookup.reference answers c₂ path) →
      ∀ supply, resolve supply c₁ template = resolve supply c₂ template) ∧
    (∀ (context : Context) (env : Variables),
      (∀ path ∈ references template, (Lookup.segments path).head? ≠ some "env") →
      ∀ supply, resolve supply { context with env := env } template
        = resolve supply context template) := by
  constructor
  · intro answers c₁ c₂ h supply
    exact resolve_congr (fun path hpath => Lookup.reference_congr (h path hpath)) supply
  · intro context env h supply
    exact resolve_congr (fun path hpath answers => Lookup.reference_env (h path hpath) answers env)
      supply

/-- An input that looks like a placeholder does not open the environment. -/
theorem resolve_hides_secret :
    resolve (.constant ⟨"noon", "id"⟩)
        { inputs := [("note", .str "\x7b\x7benv.SECRET\x7d\x7d")], env := [("SECRET", "a")] }
        (.obj [("note", .arr [.str "\x7b\x7binputs.note\x7d\x7d!"])])
      = resolve (.constant ⟨"noon", "id"⟩)
        { inputs := [("note", .str "\x7b\x7benv.SECRET\x7d\x7d")], env := [("SECRET", "b")] }
        (.obj [("note", .arr [.str "\x7b\x7binputs.note\x7d\x7d!"])]) ∧
    resolve (.constant ⟨"noon", "id"⟩)
        { inputs := [("note", .null), ("key", .bool true)] }
        (.obj [("note", .arr [.str "\x7b\x7binputs.note\x7d\x7d!"])])
      = resolve (.constant ⟨"noon", "id"⟩) { inputs := [("note", .null)] }
        (.obj [("note", .arr [.str "\x7b\x7binputs.note\x7d\x7d!"])]) := by
  have hreferences : references (.obj [("note", .arr [.str "\x7b\x7binputs.note\x7d\x7d!"])])
      = ["inputs.note"] := by
    cbv
  constructor
  · refine (resolve_noninterference _).2
      { inputs := [("note", .str "\x7b\x7benv.SECRET\x7d\x7d")], env := [("SECRET", "b")] }
      [("SECRET", "a")] ?_ _
    rw [hreferences]
    intro path hpath
    rw [List.mem_singleton.mp hpath]
    cbv; decide
  · refine (resolve_noninterference _).1 ⟨"noon", "id"⟩ _ _ ?_ _
    rw [hreferences]
    intro path hpath
    rw [List.mem_singleton.mp hpath]
    cbv

end Template
end FlowDocs
