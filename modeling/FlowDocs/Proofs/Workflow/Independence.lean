/-
  FlowDocs/Proofs/Workflow/Independence.lean
  ==========================================
  **Independent steps commute.**

  A step that has run adds one thing to the context, its output.  It is found by a path
  that starts with the id of the step, or with `steps`, and by no other: the fronts `env.`
  and `inputs.` lead to other parts, and every other path is decided by its first segment.
  So a step whose references all start differently is given the same parameters before
  and after, and two steps of which neither refers to the other can change places.  Only
  the order in which their outputs stand in the context may tell.
-/
import FlowDocs.Proofs.Template.NonInterference
import FlowDocs.Proofs.Workflow.Course
import Mathlib

namespace FlowDocs

/-! ### Recording two outputs -/

theorem Fields.set_set_perm {α : Type} (fields : Fields α) {a b : String} (hne : a ≠ b) (v w : α) :
    (set (set fields a v) b w).Perm (set (set fields b w) a v) := by
  induction fields with
  | nil =>
    rw [set, set, set, if_neg hne, set, set, if_neg (Ne.symm hne), set]
    exact List.Perm.swap _ _ _
  | cons entry rest ih =>
    obtain ⟨name, value⟩ := entry
    by_cases ha : name = a
    · have hb : name ≠ b := by
        rintro rfl
        exact hne ha.symm
      simp only [set, if_pos ha, if_neg hb]
      exact List.Perm.refl _
    · by_cases hb : name = b
      · simp only [set, if_neg ha, if_pos hb]
        exact List.Perm.refl _
      · simp only [set, if_neg ha, if_neg hb]
        exact ih.cons _

namespace Context

/-- The contexts are the same but for the order of the step outputs. -/
structure SameOutputs (c₁ c₂ : Context) : Prop where
  inputs : c₁.inputs = c₂.inputs
  env : c₁.env = c₂.env
  extra : c₁.extra = c₂.extra
  steps : c₁.steps.Perm c₂.steps

theorem recordStep_comm (context : Context) {a b : String} (hne : a ≠ b) (v w : Json) :
    ((context.recordStep a v).recordStep b w).SameOutputs
      ((context.recordStep b w).recordStep a v) :=
  ⟨rfl, rfl, rfl, Fields.set_set_perm context.steps hne v w⟩

end Context

/-! ### Paths that lead elsewhere -/

namespace Lookup

theorem inFields_set {fields : Json.Object} {path id : String}
    (h : (segments path).head? ≠ some id) (output : Json) :
    inFields (Fields.set fields id output) path = inFields fields path := by
  unfold inFields
  cases hsegments : segments path with
  | nil => rfl
  | cons first rest =>
    have hfirst := first_ne hsegments h
    simp only [descendFields, Fields.get?_set, if_neg hfirst]

theorem inContext_recordStep {context : Context} {path : String}
    (h : (segments path).head? ≠ some "steps") (id : String) (output : Json) :
    inContext (context.recordStep id output) path = inContext context path := by
  unfold inContext
  cases hsegments : segments path with
  | nil => rfl
  | cons first rest =>
    have hfirst := first_ne hsegments h
    simp only [if_neg hfirst, Context.recordStep]

/-- A path that starts with neither the id of a step nor `steps` does not see its output. -/
theorem reference_recordStep {context : Context} {path id : String}
    (hid : (segments path).head? ≠ some id) (hsteps : (segments path).head? ≠ some "steps")
    (answers : Answers) (output : Json) :
    reference answers (context.recordStep id output) path = reference answers context path := by
  have hfields : inFields (context.recordStep id output).steps path = inFields context.steps path :=
    inFields_set hid output
  unfold reference
  cases Builtin.ofName? path with
  | some builtin => rfl
  | none =>
    dsimp only
    unfold path?
    -- the two fronts lead into parts in which no output is recorded
    cases stripFront? "env.".toList path.toList with
    | some rest => rfl
    | none =>
      cases stripFront? "inputs.".toList path.toList with
      | some rest => rfl
      | none => rw [hfields, inContext_recordStep hsteps]

end Lookup

/-! ### Steps that do not refer to each other -/

/-- No reference in the parameters of the step starts with the id, nor with `steps`. -/
def Step.IndependentOf (step : Step) (id : String) : Prop :=
  ∀ path ∈ Template.references step.params,
    (Lookup.segments path).head? ≠ some id ∧ (Lookup.segments path).head? ≠ some "steps"

theorem Step.resolveParams_recordStep {step : Step} {id : String} (h : step.IndependentOf id)
    (supply : Supply) (context : Context) (output : Json) :
    step.resolveParams supply (context.recordStep id output)
      = step.resolveParams supply context := by
  apply Template.resolve_congr
  intro path hpath answers
  obtain ⟨hid, hsteps⟩ := h path hpath
  exact Lookup.reference_recordStep hid hsteps answers output

/-- Two supplies whose answers for the first two steps are exchanged. -/
structure Supply.Exchanges (supply exchanged : Supply) : Prop where
  first : exchanged.left = supply.right.left
  second : exchanged.right.left = supply.left

theorem Supply.exchanges_constant (answers : Answers) :
    (constant answers).Exchanges (constant answers) :=
  ⟨rfl, rfl⟩

namespace Workflow

variable {σ : Type}

theorem runSteps_cons_of_ok {executor : Executor σ} {supply : Supply} {progress : Progress σ}
    {step : Step} {output : Json}
    (h : (executor.execute progress.state step
      (step.resolveParams supply.left progress.context)).1 = .ok output)
    (policy : FailurePolicy) :
    ∃ state, ∀ rest, runSteps executor policy supply progress (step :: rest)
      = runSteps executor policy supply.right
        (progress.add ⟨⟨step, step.resolveParams supply.left progress.context⟩, .ok output⟩ state)
        rest := by
  have hnone : ∀ call, stoppedBy policy [⟨call, .ok output⟩] = none := by
    intro call
    cases policy <;> rfl
  cases hexecute : executor.execute progress.state step
      (step.resolveParams supply.left progress.context) with
  | mk answer state =>
    rw [hexecute] at h
    obtain rfl : answer = .ok output := h
    refine ⟨state, ?_⟩
    intro rest
    rw [runSteps_cons, turnOf, hexecute]
    dsimp only
    rw [hnone]

/-- Two steps that are done one after the other, the second of which is independent of the
    first, are both given what they would be given first. -/
theorem runSteps_independent {executor : Executor σ} {answer : Step → Json → Except Failure Json}
    (hfunction : ∀ state step params, (executor.execute state step params).1 = answer step params)
    {supply : Supply} {progress : Progress σ} {first second : Step} {output output' : Json}
    (hindependent : second.IndependentOf first.id)
    (hfirst : answer first (first.resolveParams supply.left progress.context) = .ok output)
    (hsecond : answer second (second.resolveParams supply.right.left progress.context)
      = .ok output')
    (policy : FailurePolicy) :
    ∃ after : Progress σ,
      (∀ rest, runSteps executor policy supply progress (first :: second :: rest)
        = runSteps executor policy supply.right.right after rest) ∧
      after.calls = progress.calls ++ [⟨first, first.resolveParams supply.left progress.context⟩,
        ⟨second, second.resolveParams supply.right.left progress.context⟩] ∧
      after.context
        = (progress.context.recordStep first.id output).recordStep second.id output' := by
  obtain ⟨state, hstep⟩ := runSteps_cons_of_ok ((hfunction _ _ _).trans hfirst) policy
  have hparams :=
    Step.resolveParams_recordStep hindependent supply.right.left progress.context output
  generalize hturn :
    (⟨⟨first, first.resolveParams supply.left progress.context⟩, .ok output⟩ : Turn) = turn at hstep
  have hcontext : (progress.add turn state).context
      = progress.context.recordStep first.id output := by
    rw [← hturn]
    rfl
  rw [← hparams, ← hcontext] at hsecond
  obtain ⟨state', hstep'⟩ := runSteps_cons_of_ok ((hfunction _ _ _).trans hsecond) policy
  refine ⟨_, fun rest => (hstep (second :: rest)).trans (hstep' rest), ?_, ?_⟩
  · rw [hcontext, hparams, ← hturn]
    simp [Progress.add]
  · rw [← hcontext]
    rfl

/-- **Independent steps commute.**  Two neighbouring steps with different ids, neither of
    which refers to the other's output or to all outputs, are given the same parameters in
    either order by an executor that answers by the step and its parameters alone and does
    both.  The run then goes on, whatever comes next, from contexts that are the same but
    for the order of the outputs. -/
theorem independent_steps_commute {a b : Step} (hids : a.id ≠ b.id)
    (ha : a.IndependentOf b.id) (hb : b.IndependentOf a.id)
    {executor : Executor σ} {answer : Step → Json → Except Failure Json}
    (hfunction : ∀ state step params, (executor.execute state step params).1 = answer step params)
    {supply exchanged : Supply} (hsupply : supply.Exchanges exchanged) {progress : Progress σ}
    {outputA outputB : Json}
    (hokA : answer a (a.resolveParams supply.left progress.context) = .ok outputA)
    (hokB : answer b (b.resolveParams supply.right.left progress.context) = .ok outputB)
    (policy : FailurePolicy) :
    let callA : Call := ⟨a, a.resolveParams supply.left progress.context⟩
    let callB : Call := ⟨b, b.resolveParams supply.right.left progress.context⟩
    ∃ after afterExchange : Progress σ,
      (∀ rest, runSteps executor policy supply progress (a :: b :: rest)
        = runSteps executor policy supply.right.right after rest) ∧
      (∀ rest, runSteps executor policy exchanged progress (b :: a :: rest)
        = runSteps executor policy exchanged.right.right afterExchange rest) ∧
      after.calls = progress.calls ++ [callA, callB] ∧
      afterExchange.calls = progress.calls ++ [callB, callA] ∧
      after.context = (progress.context.recordStep a.id outputA).recordStep b.id outputB ∧
      afterExchange.context
        = (progress.context.recordStep b.id outputB).recordStep a.id outputA ∧
      after.context.SameOutputs afterExchange.context := by
  intro callA callB
  obtain ⟨after, hrun, hcalls, hcontext⟩ := runSteps_independent hfunction hb hokA hokB policy
  rw [← hsupply.first] at hokB
  rw [← hsupply.second] at hokA
  obtain ⟨afterExchange, hrun', hcalls', hcontext'⟩ :=
    runSteps_independent hfunction ha hokB hokA policy
  rw [hsupply.first, hsupply.second] at hcalls'
  refine ⟨after, afterExchange, hrun, hrun', hcalls, hcalls', hcontext, hcontext', ?_⟩
  rw [hcontext, hcontext']
  exact Context.recordStep_comm progress.context hids outputA outputB

/-- Gives every step its parameters back and counts the calls. -/
def counting : Executor Nat where
  execute count _ params := (.ok params, count + 1)

/-- Two steps of which one refers to an input and to an earlier output, also in the name of
    a field, and the other to a variable.  The outputs stand in the order of the steps. -/
theorem independent_steps_commute_pair :
    let a : Step := ⟨"a", "s", "get", .obj [("\x7b\x7binputs.k\x7d\x7d",
      .str "\x7b\x7bc[0]\x7d\x7d")], []⟩
    let b : Step := ⟨"b", "s", "put", .str "to \x7b\x7benv.HOME\x7d\x7d", []⟩
    let progress : Progress Nat :=
      { context :=
          { inputs := [("k", .str "x")], steps := [("c", .arr [.bool true])],
            env := [("HOME", "h")] }
        state := 0 }
    let supply : Supply := .constant ⟨"noon", "id"⟩
    ∃ after afterExchange : Progress Nat,
      runSteps counting .stop supply progress [a, b] = (after, none) ∧
      runSteps counting .stop supply progress [b, a] = (afterExchange, none) ∧
      after.calls = [⟨a, .obj [("x", .bool true)]⟩, ⟨b, .str "to h"⟩] ∧
      after.context.steps = [("c", .arr [.bool true]), ("a", .obj [("x", .bool true)]),
        ("b", .str "to h")] ∧
      afterExchange.context.steps = [("c", .arr [.bool true]), ("b", .str "to h"),
        ("a", .obj [("x", .bool true)])] ∧
      after.context.SameOutputs afterExchange.context := by
  intro a b progress supply
  have hreferencesA : Template.references a.params = ["inputs.k", "c[0]"] := by
    cbv
  have hreferencesB : Template.references b.params = ["env.HOME"] := by
    cbv
  have hinput : Lookup.segments "inputs.k" = ["inputs", "k"] := by
    cbv
  have hitem : Lookup.segments "c[0]" = ["c", "0"] := by
    cbv
  have hvariable : Lookup.segments "env.HOME" = ["env", "HOME"] := by
    cbv
  have ha : a.IndependentOf b.id := by
    rw [Step.IndependentOf, hreferencesA, List.forall_mem_cons, List.forall_mem_singleton, hinput,
      hitem]
    decide
  have hb : b.IndependentOf a.id := by
    rw [Step.IndependentOf, hreferencesB, List.forall_mem_singleton, hvariable]
    decide
  have hids : a.id ≠ b.id := by
    decide
  have hfunction : ∀ state step params,
      (counting.execute state step params).1 = (fun _ params => .ok params) step params :=
    fun _ _ _ => rfl
  have hparamsA : a.resolveParams supply.left progress.context = .obj [("x", .bool true)] := by
    cbv
  have hparamsB : b.resolveParams supply.right.left progress.context = .str "to h" := by
    cbv
  have hokA : (.ok (a.resolveParams supply.left progress.context) : Except Failure Json)
      = .ok (.obj [("x", .bool true)]) := congrArg Except.ok hparamsA
  have hokB : (.ok (b.resolveParams supply.right.left progress.context) : Except Failure Json)
      = .ok (.str "to h") := congrArg Except.ok hparamsB
  obtain ⟨after, afterExchange, hrun, hrun', hcalls, -, hcontext, hcontext', hsame⟩ :=
    independent_steps_commute hids ha hb hfunction (Supply.exchanges_constant ⟨"noon", "id"⟩)
      hokA hokB .stop
  refine ⟨after, afterExchange, hrun [], hrun' [], ?_, ?_, ?_, hsame⟩
  · rw [hcalls, ← hparamsA, ← hparamsB]
    rfl
  · rw [hcontext]
    rfl
  · rw [hcontext']
    rfl

end Workflow
end FlowDocs
