/-
  FlowDocs/Proofs/Workflow/Course.lean
  ====================================
  **A run as a part of the course of its steps.**

  `course` holds the turns of steps that nothing stops.  It has no accumulators: the
  first turn is that of the first step, and the rest is the course of the other steps
  from where the first one leads.  The policy of a run only says how much of the
  course happens, all of it or the front up to the first failure, and with that the
  whole run is known (`run_eq`).
-/
import FlowDocs.Proofs.Workflow.Turns

namespace FlowDocs

variable {σ : Type}

/-- The document asks to go on after a failure. -/
def Document.ContinuesOnError (document : Json) : Prop :=
  ((document.field? "error_handling").bind fun handling => handling.field? "on_error")
    = some (.str "continue")

instance (document : Json) : Decidable (Document.ContinuesOnError document) :=
  inferInstanceAs (Decidable (_ = _))

theorem FailurePolicy.ofDocument_eq (document : Json) :
    FailurePolicy.ofDocument document
      = if Document.ContinuesOnError document then .continue else .stop := by
  have htext : ∀ value : Option Json,
      value.bind Json.text? = some "continue" ↔ value = some (.str "continue") := by
    intro value
    rcases value with _ | value
    · simp
    · cases value <;> simp [Json.text?]
  rw [FailurePolicy.ofDocument]
  by_cases h : Document.ContinuesOnError document
  · rw [if_pos h, if_pos ((htext _).mpr h)]
  · rw [if_neg h, if_neg fun hcontinue => h ((htext _).mp hcontinue)]

namespace Workflow

/-! ### The course of steps -/

/-- The turn a step has in a context, and the state it leaves the executor in. -/
def turnOf (executor : Executor σ) (supply : Supply) (context : Context) (state : σ)
    (step : Step) : Turn × σ :=
  let params := step.resolveParams supply context
  let (answer, state) := executor.execute state step params
  (⟨⟨step, params⟩, answer⟩, state)

/-- The turns of steps when no failure stops them. -/
def course (executor : Executor σ) : Supply → Context → σ → List Step → List Turn
  | _, _, _, [] => []
  | supply, context, state, step :: rest =>
    let (turn, state) := turnOf executor supply.left context state step
    turn :: course executor supply.right (context.recordStep turn.id turn.output) state rest

theorem map_step_course (executor : Executor σ) (supply : Supply) (context : Context) (state : σ)
    (steps : List Step) :
    (course executor supply context state steps).map (fun turn => turn.call.step) = steps := by
  induction steps generalizing supply context state with
  | nil => rfl
  | cons step rest ih => rw [course, List.map_cons, ih]; rfl

theorem map_id_course (executor : Executor σ) (supply : Supply) (context : Context) (state : σ)
    (steps : List Step) :
    (course executor supply context state steps).map Turn.id = steps.map Step.id := by
  have hsteps := congrArg (List.map Step.id) (map_step_course executor supply context state steps)
  rwa [List.map_map] at hsteps

theorem length_course (executor : Executor σ) (supply : Supply) (context : Context) (state : σ)
    (steps : List Step) : (course executor supply context state steps).length = steps.length := by
  have hsteps := congrArg List.length (map_step_course executor supply context state steps)
  rwa [List.length_map] at hsteps

/-- The answers in a course are those of the executor to its calls. -/
theorem turns_course (executor : Executor σ) (supply : Supply) (context : Context) (state : σ)
    (steps : List Step) :
    executor.turns state ((course executor supply context state steps).map Turn.call)
      = course executor supply context state steps := by
  induction steps generalizing supply context state with
  | nil => rfl
  | cons step rest ih =>
    rw [course, List.map_cons, Executor.turns]
    exact congrArg (List.cons _) (ih _ _ _)

theorem params_course (executor : Executor σ) {supply : Supply} {context : Context} {state : σ}
    {steps : List Step} {k : Nat} {turn : Turn}
    (h : (course executor supply context state steps)[k]? = some turn) :
    turn.call.params = Template.resolve (supply.forStep k)
      (context.after ((course executor supply context state steps).take k))
      turn.call.step.params := by
  induction steps generalizing supply context state k with
  | nil => cases h
  | cons step rest ih =>
    rw [course] at h ⊢
    cases k with
    | zero => cases h; rfl
    | succ k =>
      rw [List.getElem?_cons_succ] at h
      rw [List.take_succ_cons, Context.after_cons, Supply.forStep]
      exact ih h

theorem call_of_front {executor : Executor σ} {supply : Supply} {context : Context} {state : σ}
    {steps : List Step} {turns : List Turn}
    (hstart : turns <+: course executor supply context state steps) {k : Nat} {turn : Turn}
    (h : turns[k]? = some turn) :
    steps[k]? = some turn.call.step ∧
      turn.call.params = Template.resolve (supply.forStep k) (context.after (turns.take k))
        turn.call.step.params := by
  obtain ⟨rest, hrest⟩ := hstart
  obtain ⟨hk, -⟩ := List.getElem?_eq_some_iff.mp h
  have hcourse : (course executor supply context state steps)[k]? = some turn := by
    rw [← hrest, List.getElem?_append_left hk, h]
  have hparams := params_course executor hcourse
  rw [← hrest, List.take_append_of_le_length hk.le] at hparams
  refine ⟨?_, hparams⟩
  conv_lhs => rw [← map_step_course executor supply context state steps]
  rw [List.getElem?_map, hcourse]
  rfl

/-! ### How far a policy goes -/

/-- The turns up to the first that failed, with that one. -/
def upToFailure : List Turn → List Turn
  | [] => []
  | turn :: rest =>
    match turn.failure? with
    | some _ => [turn]
    | none => turn :: upToFailure rest

/-- The turns of a course that a policy lets happen. -/
def allowed : FailurePolicy → List Turn → List Turn
  | .stop, turns => upToFailure turns
  | .continue, turns => turns

/-- The failure that ends a course under a policy. -/
def stoppedBy : FailurePolicy → List Turn → Option Failure
  | .stop, turns => turns.findSome? Turn.failure?
  | .continue, _ => none

theorem prefix_upToFailure (turns : List Turn) : upToFailure turns <+: turns := by
  induction turns with
  | nil => exact List.prefix_refl []
  | cons turn rest ih =>
    rw [upToFailure]
    cases turn.failure? with
    | some failure => exact ⟨rest, rfl⟩
    | none => exact (List.prefix_cons_inj turn).mpr ih

theorem upToFailure_append {front : List Turn} {turn : Turn} {failure : Failure}
    (hfront : ∀ earlier ∈ front, earlier.failure? = none) (hturn : turn.failure? = some failure)
    (rest : List Turn) : upToFailure (front ++ turn :: rest) = front ++ [turn] := by
  induction front with
  | nil => rw [List.nil_append, upToFailure, hturn]; rfl
  | cons first front ih =>
    have hfirst := hfront first List.mem_cons_self
    have hrest := ih fun earlier hmem => hfront earlier (List.mem_cons_of_mem first hmem)
    rw [List.cons_append, upToFailure, hfirst, hrest]; rfl

theorem upToFailure_eq_self {turns : List Turn} (h : turns.findSome? Turn.failure? = none) :
    upToFailure turns = turns := by
  induction turns with
  | nil => rfl
  | cons turn rest ih =>
    rw [List.findSome?_eq_none_iff, List.forall_mem_cons] at h
    rw [upToFailure, h.1, ih (List.findSome?_eq_none_iff.mpr h.2)]

/-- Where a course is stopped, everything before went well and nothing comes after. -/
theorem exists_first_failure {turns : List Turn} {failure : Failure}
    (h : turns.findSome? Turn.failure? = some failure) :
    ∃ k turn, turns[k]? = some turn ∧ turn.failure? = some failure ∧
      (∀ earlier ∈ turns.take k, earlier.failure? = none) ∧
      upToFailure turns = turns.take (k + 1) := by
  obtain ⟨front, turn, rest, rfl, hturn, hfront⟩ := List.findSome?_eq_some_iff.mp h
  refine ⟨front.length, turn, by simp, hturn, ?_, ?_⟩
  · rw [List.take_left]
    exact hfront
  · rw [upToFailure_append hfront hturn rest, List.take_length_add_append]
    rfl

theorem failures_eq_nil_iff {turns : List Turn} :
    turns.filterMap Turn.failed? = [] ↔ turns.findSome? Turn.failure? = none := by
  rw [List.filterMap_eq_nil_iff, List.findSome?_eq_none_iff]
  simp only [Turn.failed?, Option.map_eq_none_iff]

/-- The failure recorded first is the one that stops a course. -/
theorem message_of_failures {turns : List Turn} {first : FailedStep} {more : List FailedStep}
    (h : turns.filterMap Turn.failed? = first :: more) :
    (turns.findSome? Turn.failure?).map Failure.message = some first.message := by
  have hfirst : turns.findSome? Turn.failed? = some first := by
    rw [← List.head?_filterMap, h]
    rfl
  have hmessage : (fun turn : Turn => turn.failure?.map Failure.message)
      = fun turn => turn.failed?.map FailedStep.message := by
    funext turn
    rw [Turn.failed?, Option.map_map]
    rfl
  calc (turns.findSome? Turn.failure?).map Failure.message
      = turns.findSome? fun turn => turn.failure?.map Failure.message := List.map_findSome?
    _ = turns.findSome? fun turn => turn.failed?.map FailedStep.message := by rw [hmessage]
    _ = (turns.findSome? Turn.failed?).map FailedStep.message := List.map_findSome?.symm
    _ = some first.message := by rw [hfirst]; rfl

/-- A turn that failed is the last one. -/
theorem length_upToFailure {turns : List Turn} {k : Nat} {turn : Turn} {failure : Failure}
    (hturn : (upToFailure turns)[k]? = some turn) (hfailure : turn.failure? = some failure) :
    (upToFailure turns).length = k + 1 ∧ turns.findSome? Turn.failure? = some failure := by
  induction turns generalizing k with
  | nil => cases hturn
  | cons first rest ih =>
    rw [upToFailure] at hturn ⊢
    rw [List.findSome?_cons]
    cases hfirst : first.failure? with
    | some cause =>
      rw [hfirst] at hturn
      cases k with
      | zero =>
        cases hturn
        rw [hfailure] at hfirst
        exact ⟨rfl, hfirst.symm⟩
      | succ k => cases hturn
    | none =>
      rw [hfirst] at hturn
      cases k with
      | zero =>
        cases hturn
        rw [hfailure] at hfirst
        cases hfirst
      | succ k =>
        obtain ⟨hlength, hfound⟩ := ih hturn
        exact ⟨congrArg (· + 1) hlength, hfound⟩

theorem findSome?_eq_none_of_upToFailure {turns : List Turn}
    (h : ∀ turn ∈ upToFailure turns, turn.failure? = none) :
    turns.findSome? Turn.failure? = none := by
  cases hfound : turns.findSome? Turn.failure? with
  | none => rfl
  | some failure =>
    obtain ⟨k, turn, hk, hturn, -, hcut⟩ := exists_first_failure hfound
    have hmem : turn ∈ upToFailure turns := by
      rw [hcut]
      exact List.mem_of_getElem? ((List.getElem?_take_of_lt (Nat.lt_succ_self k)).trans hk)
    have hnone := h turn hmem
    rw [hturn] at hnone
    cases hnone

theorem prefix_allowed (policy : FailurePolicy) (turns : List Turn) :
    allowed policy turns <+: turns := by
  cases policy with
  | stop => exact prefix_upToFailure turns
  | «continue» => exact List.prefix_refl turns

theorem allowed_eq_self {policy : FailurePolicy} {turns : List Turn}
    (h : stoppedBy policy turns = none) : allowed policy turns = turns := by
  cases policy with
  | stop => exact upToFailure_eq_self h
  | «continue» => rfl

theorem stoppedBy_eq_none {policy : FailurePolicy} {turns : List Turn}
    (h : policy = .continue ∨ ∀ turn ∈ allowed policy turns, turn.failure? = none) :
    stoppedBy policy turns = none := by
  cases policy with
  | stop => exact findSome?_eq_none_of_upToFailure (h.resolve_left nofun)
  | «continue» => rfl

theorem stoppedBy_cons_of_some {policy : FailurePolicy} {turn : Turn} {failure : Failure}
    (h : stoppedBy policy [turn] = some failure) (rest : List Turn) :
    allowed policy (turn :: rest) = [turn] ∧ stoppedBy policy (turn :: rest) = some failure := by
  cases policy with
  | stop =>
    have hturn : turn.failure? = some failure := by
      rw [stoppedBy, List.findSome?_singleton] at h
      exact h
    simp [allowed, upToFailure, stoppedBy, hturn]
  | «continue» => cases h

theorem stoppedBy_cons_of_none {policy : FailurePolicy} {turn : Turn}
    (h : stoppedBy policy [turn] = none) (rest : List Turn) :
    allowed policy (turn :: rest) = turn :: allowed policy rest ∧
      stoppedBy policy (turn :: rest) = stoppedBy policy rest := by
  cases policy with
  | stop =>
    have hturn : turn.failure? = none := by
      rw [stoppedBy, List.findSome?_singleton] at h
      exact h
    simp [allowed, upToFailure, stoppedBy, hturn]
  | «continue» => exact ⟨rfl, rfl⟩

/-! ### Runs -/

/-- How far a run has come after a turn that did not stop it. -/
def Progress.add (progress : Progress σ) (turn : Turn) (state : σ) : Progress σ where
  context := progress.context.recordStep turn.id turn.output
  state := state
  calls := progress.calls ++ [turn.call]
  executed := progress.executed ++ [turn.id]
  failures := progress.failures ++ turn.failed?.toList

theorem Progress.state_add (progress : Progress σ) (turn : Turn) (state : σ) :
    (progress.add turn state).state = state :=
  rfl

theorem runSteps_cons (executor : Executor σ) (policy : FailurePolicy) (supply : Supply)
    (progress : Progress σ) (step : Step) (rest : List Step) :
    runSteps executor policy supply progress (step :: rest)
      = match turnOf executor supply.left progress.context progress.state step with
        | (turn, state) =>
          match stoppedBy policy [turn] with
          | some failure =>
            ({ progress with state := state, calls := progress.calls ++ [turn.call] }, some failure)
          | none => runSteps executor policy supply.right (progress.add turn state) rest := by
  cases hexecute : executor.execute progress.state step
      (step.resolveParams supply.left progress.context) with
  | mk answer state =>
    simp only [runSteps, turnOf, hexecute]
    cases answer with
    | ok value =>
      have hnone : stoppedBy policy [⟨⟨step, step.resolveParams supply.left progress.context⟩,
          .ok value⟩] = none := by
        cases policy <;> rfl
      simp [hnone, Progress.add, Progress.record, Turn.id, Turn.output, Turn.failed?, Turn.failure?]
    | error failure =>
      cases policy with
      | stop => rfl
      | «continue» => rfl

/-- What a run of steps comes to when the steps have the given course. -/
structure Reaches (executor : Executor σ) (policy : FailurePolicy) (progress : Progress σ)
    (turns : List Turn) (outcome : Progress σ × Option Failure) : Prop where
  calls : outcome.1.calls = progress.calls ++ (allowed policy turns).map Turn.call
  state : outcome.1.state
    = executor.stateAfter progress.state ((allowed policy turns).map Turn.call)
  stopped : outcome.2 = stoppedBy policy turns
  context : outcome.2 = none → outcome.1.context = progress.context.after turns
  executed : outcome.2 = none → outcome.1.executed = progress.executed ++ turns.map Turn.id
  failures : outcome.2 = none →
    outcome.1.failures = progress.failures ++ turns.filterMap Turn.failed?

theorem runSteps_reaches (executor : Executor σ) (policy : FailurePolicy) (supply : Supply)
    (progress : Progress σ) (steps : List Step) :
    Reaches executor policy progress
      (course executor supply progress.context progress.state steps)
      (runSteps executor policy supply progress steps) := by
  induction steps generalizing supply progress with
  | nil =>
    cases policy <;>
      exact ⟨(List.append_nil _).symm, rfl, rfl, fun _ => rfl, fun _ => (List.append_nil _).symm,
        fun _ => (List.append_nil _).symm⟩
  | cons step rest ih =>
    rw [runSteps_cons, course]
    -- the first turn either ends the run or becomes part of the progress, from which the
    -- induction hypothesis takes the rest
    have hstate : (turnOf executor supply.left progress.context progress.state step).2
        = executor.stateAfter progress.state
          [(turnOf executor supply.left progress.context progress.state step).1.call] := rfl
    cases hturn : turnOf executor supply.left progress.context progress.state step with
    | mk turn state =>
    rw [hturn] at hstate
    dsimp only at hstate ⊢
    cases hstop : stoppedBy policy [turn] with
    | some failure =>
      obtain ⟨hallowed, hstopped⟩ := stoppedBy_cons_of_some hstop
        (course executor supply.right (progress.context.recordStep turn.id turn.output) state rest)
      dsimp only
      refine ⟨?_, ?_, hstopped.symm, nofun, nofun, nofun⟩
      · rw [hallowed]; rfl
      · rw [hallowed]; exact hstate
    | none =>
      obtain ⟨hallowed, hstopped⟩ := stoppedBy_cons_of_none hstop
        (course executor supply.right (progress.context.recordStep turn.id turn.output) state rest)
      have hrest := ih supply.right (progress.add turn state)
      dsimp only
      refine ⟨?_, ?_, ?_, ?_, ?_, ?_⟩
      · rw [hrest.calls, hallowed]
        simp [Progress.add]
      · rw [hrest.state, hallowed, Progress.state_add, hstate]; rfl
      · rw [hrest.stopped, hstopped]; rfl
      · intro hend
        rw [hrest.context hend]; rfl
      · intro hend
        rw [hrest.executed hend]
        simp [Progress.add]
      · intro hend
        rw [hrest.failures hend]
        cases hfailed : turn.failed? <;> simp [Progress.add, hfailed]

/-- What a run has to show when all turns have happened. -/
def finished (supply : Supply) (document : Json) (context : Context) (turns : List Turn) : Run where
  context := context.after turns
  executed := turns.map Turn.id
  failures := turns.filterMap Turn.failed?
  outputs := ((document.field? "outputs").map
    (Template.resolve supply.right (context.after turns))).getD .null

/-- **A run is known from the course of its steps.** -/
theorem run_eq {document : Json} {steps : List Step}
    (h : Document.readSteps document = .ok steps) (executor : Executor σ) (supply : Supply)
    (context : Context) (state : σ) :
    run executor supply document context state
      = { calls := (allowed (FailurePolicy.ofDocument document)
            (course executor supply.left context state steps)).map Turn.call
          state := executor.stateAfter state ((allowed (FailurePolicy.ofDocument document)
            (course executor supply.left context state steps)).map Turn.call)
          result :=
            match stoppedBy (FailurePolicy.ofDocument document)
                (course executor supply.left context state steps) with
            | some failure => .error failure
            | none =>
              .ok (finished supply document context
                (course executor supply.left context state steps)) } := by
  have hreaches := runSteps_reaches executor (FailurePolicy.ofDocument document) supply.left
    { context := context, state := state } steps
  rw [run, h]
  dsimp only at hreaches ⊢
  obtain ⟨hcalls, hstate, hstopped, hcontext, hexecuted, hfailures⟩ := hreaches
  rw [hcalls, hstate, List.nil_append, ← hstopped]
  cases hend : (runSteps executor (FailurePolicy.ofDocument document) supply.left
      { context := context, state := state } steps).2 with
  | some failure => rfl
  | none => simp [finished, hcontext hend, hexecuted hend, hfailures hend]

theorem run_of_error {document : Json} {failure : Failure}
    (h : Document.readSteps document = .error failure) (executor : Executor σ) (supply : Supply)
    (context : Context) (state : σ) :
    run executor supply document context state = ⟨[], state, .error failure⟩ := by
  rw [run, h]

/-- The executor gives a run the answers it gives to the run's calls. -/
theorem turns_allowed (executor : Executor σ) (policy : FailurePolicy) (supply : Supply)
    (context : Context) (state : σ) (steps : List Step) :
    executor.turns state
        ((allowed policy (course executor supply context state steps)).map Turn.call)
      = allowed policy (course executor supply context state steps) := by
  have htake := List.prefix_iff_eq_take.mp
    (prefix_allowed policy (course executor supply context state steps))
  rw [htake, List.map_take, Executor.turns_take, turns_course]

/-- The turns of a run belong to the first steps, in order, and the parameters of each
    are resolved against what the turns before it have left. -/
theorem call_of_run {document : Json} {steps : List Step}
    (hread : Document.readSteps document = .ok steps) {executor : Executor σ} {supply : Supply}
    {context : Context} {state : σ} {turns : List Turn}
    (hturns : turns = executor.turns state (run executor supply document context state).calls)
    {k : Nat} {turn : Turn} (h : turns[k]? = some turn) :
    steps[k]? = some turn.call.step ∧
      turn.call.params = Template.resolve (supply.left.forStep k) (context.after (turns.take k))
        turn.call.step.params := by
  rw [run_eq hread, turns_allowed] at hturns
  have hfront : turns <+: course executor supply.left context state steps := by
    rw [hturns]
    exact prefix_allowed _ _
  exact call_of_front hfront h

/-! ### Runs to look at -/

/-- Fails when it is called first and answers later calls with their parameters. -/
def warmingUp : Executor Bool where
  execute warm _ params := (if warm then .ok params else .error (.user (.other "cold")), true)

/-- Gives every step the same output. -/
def answering (output : Json) : Executor Unit where
  execute _ _ _ := (.ok output, ())

theorem answer_of_answering {output : Json} {calls : List Call} {turn : Turn}
    (h : turn ∈ (answering output).turns () calls) : turn.answer = .ok output := by
  induction calls with
  | nil => cases h
  | cons call rest ih =>
    rcases List.mem_cons.mp h with rfl | hrest
    · rfl
    · exact ih hrest

/-- Two steps, the second of which passes on the output of the first. -/
def relay (onError : String) : Json :=
  .obj [("error_handling", .obj [("on_error", .str onError)]),
    ("steps", .arr
      [.obj [("id", .str "a"), ("service", .str "s"), ("action", .str "get")],
       .obj [("id", .str "b"), ("service", .str "s"), ("action", .str "put"),
         ("params", .str "\x7b\x7ba\x7d\x7d")]])]

end Workflow
end FlowDocs
