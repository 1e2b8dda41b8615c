/-
  FlowDocs/Proofs/Workflow/Policies.lean
  ======================================
  **Stopping and going on are the same run up to the first failure.**

  Both runs follow the course of the same steps.  Without a failure both follow it to
  the end; otherwise the run that stops makes the calls of the other one up to the
  first that fails, and ends with the failure the other one records first.
-/
import FlowDocs.Proofs.Workflow.Course

namespace FlowDocs.Workflow

variable {σ : Type}

/-- **Two policies, one course.**  Of two documents that differ at most in how they
    handle errors, one stops at a failure and the other goes on.  The first one's run
    ends well exactly if the second one's records no failure, and then the runs are the
    same.  If the second one's records failures, the first one's ends with a failure
    whose text is the first recorded, after the calls that the second one's made up to
    and including the first that failed. -/
theorem stop_simulates_continue {stopping continuing : Json}
    (hstop : ¬ Document.ContinuesOnError stopping)
    (hcontinue : Document.ContinuesOnError continuing)
    (hsame : ∀ name, name ≠ "error_handling" → stopping.field? name = continuing.field? name)
    (executor : Executor σ) (supply : Supply) (context : Context) (state : σ) :
    (∀ finish : Run,
      (run executor supply stopping context state).result = .ok finish ↔
        (run executor supply continuing context state).result = .ok finish ∧
          finish.failures = []) ∧
    (∀ (finish : Run) (first : FailedStep) (more : List FailedStep),
      (run executor supply continuing context state).result = .ok finish →
      finish.failures = first :: more →
      ∃ k turn failure,
        (executor.turns state (run executor supply continuing context state).calls)[k]?
          = some turn ∧
        turn.answer = .error failure ∧
        (∀ earlier ∈ (executor.turns state
          (run executor supply continuing context state).calls).take k,
          ∃ value, earlier.answer = .ok value) ∧
        (run executor supply stopping context state).result = .error failure ∧
        failure.message = first.message ∧
        (run executor supply stopping context state).calls
          = (run executor supply continuing context state).calls.take (k + 1)) := by
  have hsteps : Document.readSteps stopping = Document.readSteps continuing := by
    rw [Document.readSteps, Document.readSteps, hsame "steps" (by decide)]
  have hfinished : ∀ turns, finished supply stopping context turns
      = finished supply continuing context turns := by
    intro turns
    rw [finished, finished, hsame "outputs" (by decide)]
  cases hread : Document.readSteps continuing with
  | error failure =>
    rw [run_of_error (hsteps.trans hread), run_of_error hread]
    refine ⟨fun finish => ⟨fun h => ?_, fun h => ?_⟩, fun finish first more h => ?_⟩
    · cases h
    · cases h.1
    · cases h
  | ok steps =>
    have hreplay := turns_allowed executor .continue supply.left context state steps
    rw [run_eq (hsteps.trans hread), run_eq hread, FailurePolicy.ofDocument_eq, if_neg hstop,
      FailurePolicy.ofDocument_eq, if_pos hcontinue]
    -- from here on both runs are functions of the same turns
    generalize course executor supply.left context state steps = turns at hreplay ⊢
    dsimp only
    rw [hreplay, hfinished]
    dsimp only [allowed, stoppedBy]
    have hfailures : (finished supply continuing context turns).failures
        = turns.filterMap Turn.failed? := rfl
    constructor
    · intro finish
      cases hfound : turns.findSome? Turn.failure? with
      | none =>
        have hnil := hfailures.trans (failures_eq_nil_iff.mpr hfound)
        constructor
        · intro h
          cases h
          exact ⟨rfl, hnil⟩
        · rintro ⟨h, -⟩
          exact h
      | some failure =>
        constructor
        · intro h
          cases h
        · rintro ⟨h, hnil⟩
          cases h
          rw [hfailures, failures_eq_nil_iff, hfound] at hnil
          cases hnil
    · intro finish first more h hfirst
      cases h
      rw [hfailures] at hfirst
      obtain ⟨failure, hfound, hmessage⟩ := Option.map_eq_some_iff.mp (message_of_failures hfirst)
      obtain ⟨k, turn, hk, hturn, hearlier, hcut⟩ := exists_first_failure hfound
      refine ⟨k, turn, failure, hk, Turn.failure?_eq_some_iff.mp hturn, ?_, ?_, hmessage, ?_⟩
      · intro earlier hmem
        exact Turn.failure?_eq_none_iff.mp (hearlier earlier hmem)
      · rw [hfound]
      · rw [hcut, List.map_take]

/-- Where the first of two calls fails, the run that stops ends with its failure. -/
theorem stop_simulates_relay :
    let answers : Answers := ⟨"noon", "id"⟩
    let cold := run warmingUp (.constant answers) (relay "stop") {} false
    (∃ failure, cold.result = .error failure ∧ failure.message = "cold") ∧
      (∃ k, cold.calls
        = (run warmingUp (.constant answers) (relay "continue") {} false).calls.take (k + 1)) ∧
      ∃ finish, (run warmingUp (.constant answers) (relay "stop") {} true).result = .ok finish ∧
        finish.failures = [] := by
  intro answers cold
  have hsame : ∀ name, name ≠ "error_handling" →
      (relay "stop").field? name = (relay "continue").field? name := by
    intro name hname
    simp [relay, Json.field?, Fields.get?_cons, hname]
  obtain ⟨k, turn, failure, -, -, -, hresult, hmessage, hcalls⟩ :=
    (stop_simulates_continue (by decide) (by decide) hsame warmingUp (.constant answers) {}
      false).2 _ ⟨"a", "cold"⟩ [] rfl rfl
  have hwarm := (stop_simulates_continue (by decide) (by decide) hsame warmingUp
    (.constant answers) {} true).1
  exact ⟨⟨failure, hresult, hmessage⟩, ⟨k, hcalls⟩, _, (hwarm _).mpr ⟨rfl, rfl⟩, rfl⟩

end FlowDocs.Workflow
