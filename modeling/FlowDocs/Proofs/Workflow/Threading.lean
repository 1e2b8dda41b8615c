/-
  FlowDocs/Proofs/Workflow/Threading.lean
  =======================================
  **How outputs pass from step to step.**

  Every call of a run is made with the parameters of its step, resolved against the
  context that the calls before it have left, and then sets the output of its step
  there.  The first failure ends the run unless the document asks to go on; a run that
  is not ended so has called the executor for every step and shows what all the calls
  have left.
-/
import FlowDocs.Proofs.Workflow.Addressing

namespace FlowDocs.Workflow

variable {σ : Type}

/-- **A run threads its outputs.**  A document whose steps cannot be read fails without
    a call.  Otherwise the calls are those of the steps in order, each resolved against
    the context the calls before it have left, and the executor ends in the state they
    lead to.  From one call to the next the context changes by one entry: the id of the
    step now has the output, or `null` if the call failed.  Unless the document goes on
    after failures, a failed call is the last one and its failure is the result.  If it
    does, or if no call failed, there is a call for every step, and the result is what
    the turns have left.  The context differs from the first one in the outputs of steps
    that had a turn, and in nothing else. -/
theorem run_threads_outputs (executor : Executor σ) (supply : Supply) (document : Json)
    (context : Context) (state : σ) :
    (∀ failure, Document.readSteps document = .error failure →
      run executor supply document context state = ⟨[], state, .error failure⟩) ∧
    (∀ steps, Document.readSteps document = .ok steps →
      let outcome := run executor supply document context state
      let turns := executor.turns state outcome.calls
      outcome.state = executor.stateAfter state outcome.calls ∧
      (∀ k turn, turns[k]? = some turn →
        steps[k]? = some turn.call.step ∧
        turn.call.params = Template.resolve (supply.left.forStep k)
          (context.after (turns.take k)) turn.call.step.params) ∧
      (∀ k turn, turns[k]? = some turn →
        let before := context.after (turns.take k)
        let reached := context.after (turns.take (k + 1))
        (∀ value, turn.answer = .ok value → before.Records turn.id value reached) ∧
        (∀ failure, turn.answer = .error failure → before.Records turn.id .null reached)) ∧
      (¬ Document.ContinuesOnError document → ∀ k turn failure, turns[k]? = some turn →
        turn.answer = .error failure →
        outcome.calls.length = k + 1 ∧ outcome.result = .error failure) ∧
      (Document.ContinuesOnError document ∨ (∀ turn ∈ turns, ∃ value, turn.answer = .ok value) →
        outcome.calls.length = steps.length ∧
        outcome.result = .ok
          { context := context.after turns
            executed := steps.map Step.id
            failures := turns.filterMap Turn.failed?
            outputs := ((document.field? "outputs").map
              (Template.resolve supply.right (context.after turns))).getD .null }) ∧
      (∀ k, let reached := context.after (turns.take k)
        reached.inputs = context.inputs ∧ reached.env = context.env ∧
        reached.extra = context.extra ∧
        ∀ id, (∀ turn ∈ turns.take k, turn.id ≠ id) →
          Fields.get? reached.steps id = Fields.get? context.steps id)) := by
  refine ⟨fun failure h => run_of_error h executor supply context state, ?_⟩
  intro steps hsteps
  rw [run_eq hsteps]
  dsimp only
  rw [turns_allowed]
  have hstart := prefix_allowed (FailurePolicy.ofDocument document)
    (course executor supply.left context state steps)
  refine ⟨rfl, ?_, ?_, ?_, ?_, ?_⟩
  · intro k turn hturn
    exact call_of_front hstart hturn
  · intro k turn hturn
    have hrecords := context.records_after hturn
    refine ⟨?_, ?_⟩
    · intro value hanswer
      rwa [Turn.output_of_ok hanswer] at hrecords
    · intro failure hanswer
      rwa [Turn.output_of_error hanswer] at hrecords
  · intro hstop k turn failure hturn hanswer
    rw [FailurePolicy.ofDocument_eq, if_neg hstop] at hturn ⊢
    obtain ⟨hlength, hfound⟩ :=
      length_upToFailure hturn (Turn.failure?_eq_some_iff.mpr hanswer)
    rw [List.length_map, allowed, stoppedBy, hfound]
    exact ⟨hlength, rfl⟩
  · intro hall
    have hend : stoppedBy (FailurePolicy.ofDocument document)
        (course executor supply.left context state steps) = none := by
      apply stoppedBy_eq_none
      rcases hall with hcontinue | hok
      · left
        rw [FailurePolicy.ofDocument_eq, if_pos hcontinue]
      · right
        intro turn hmem
        exact Turn.failure?_eq_none_iff.mpr (hok turn hmem)
    rw [allowed_eq_self hend, hend, List.length_map, length_course,
      ← map_id_course executor supply.left context state steps]
    exact ⟨rfl, rfl⟩
  · intro k
    have heq := context.after_eq
      ((allowed (FailurePolicy.ofDocument document)
        (course executor supply.left context state steps)).take k)
    refine ⟨?_, ?_, ?_, ?_⟩
    · rw [heq]
    · rw [heq]
    · rw [heq]
    · intro id hid
      exact context.get?_steps_after hid

/-- When the first call fails, the run ends there or goes on with `null` for the output
    that the second step passes on; when it goes well, the second step passes on the
    output. -/
theorem run_threads_relay :
    let answers : Answers := ⟨"noon", "id"⟩
    let value : Json := .obj [("x", .str "out")]
    let stopped := run warmingUp (.constant answers) (relay "stop") {} false
    let continued := run warmingUp (.constant answers) (relay "continue") {} false
    let turns := warmingUp.turns false continued.calls
    let answered := (answering value).turns ()
      (run (answering value) (.constant answers) (relay "stop") {} ()).calls
    run warmingUp (.constant answers) (.obj []) {} false
        = ⟨[], false, .error (.invalid [.stepsNotArray])⟩ ∧
      stopped.calls.length = 1 ∧ stopped.result = .error (.user (.other "cold")) ∧
      (∃ finish, continued.result = .ok finish ∧ finish.executed = ["a", "b"] ∧
        finish.failures = [⟨"a", "cold"⟩]) ∧
      (∃ turn, turns[1]? = some turn ∧ turn.call.params = .null) ∧
      Fields.get? (({} : Context).after (turns.take 1)).steps "a" = some .null ∧
      Fields.get? (({} : Context).after (turns.take 1)).steps "b" = none ∧
      (∃ turn, answered[1]? = some turn ∧ turn.call.params = value) ∧
      Fields.get? (({} : Context).after (answered.take 1)).steps "a" = some value := by
  intro answers value stopped continued turns answered
  obtain ⟨-, -, -, hstop, -, -⟩ :=
    (run_threads_outputs warmingUp (.constant answers) (relay "stop") {} false).2 _ rfl
  obtain ⟨-, hcalls, hrecords, -, hall, hframe⟩ :=
    (run_threads_outputs warmingUp (.constant answers) (relay "continue") {} false).2 _ rfl
  obtain ⟨-, hcalls', hrecords', -, -, -⟩ :=
    (run_threads_outputs (answering value) (.constant answers) (relay "stop") {} ()).2 _ rfl
  obtain ⟨hlength, hresult⟩ := hstop (by decide) 0 _ _ rfl rfl
  obtain ⟨-, hfinish⟩ := hall (Or.inl (by decide))
  have hfailed : Fields.get? (({} : Context).after (turns.take 1)).steps "a" = some .null :=
    ((hrecords 0 _ rfl).2 _ rfl).own
  have hrecorded : Fields.get? (({} : Context).after (answered.take 1)).steps "a" = some value :=
    ((hrecords' 0 _ rfl).1 _ rfl).own
  -- the second step asks for what is under the id of the first
  have hpassed : ∃ turn, turns[1]? = some turn ∧ turn.call.params = .null := by
    obtain ⟨-, hparams⟩ := hcalls 1 _ rfl
    exact ⟨_, rfl, hparams.trans (isLoneName_first.resolve_id (by decide) hfailed _)⟩
  have hpassed' : ∃ turn, answered[1]? = some turn ∧ turn.call.params = value := by
    obtain ⟨-, hparams⟩ := hcalls' 1 _ rfl
    exact ⟨_, rfl, hparams.trans (isLoneName_first.resolve_id (by decide) hrecorded _)⟩
  obtain ⟨-, -, -, hother⟩ := hframe 1
  have hkept : Fields.get? (({} : Context).after (turns.take 1)).steps "b" = none :=
    hother "b" (by decide)
  exact ⟨(run_threads_outputs _ _ _ _ _).1 _ rfl, hlength, hresult, ⟨_, hfinish, rfl, rfl⟩,
    hpassed, hfailed, hkept, hpassed', hrecorded⟩

end FlowDocs.Workflow
