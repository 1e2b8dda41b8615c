/-
  FlowDocs/Document/Workflow.lean
  ===============================
  **Running a workflow.**

  The steps run in order.  The parameters of a step are resolved against the
  context built so far, an executor does the work, and its output becomes part of
  the context under the step's id.  When a step fails, the run stops with that
  failure, or goes on with `null` as the output if the document asks for it.  The
  outputs of the document are resolved last.

  The executor is a machine with a state of its own.  A run reports every call it
  made, so that two runs can be compared call by call.
-/
import FlowDocs.Document.Step
import FlowDocs.Template.Resolution

namespace FlowDocs

/-- Does the work of a step, given its resolved parameters. -/
structure Executor (σ : Type) where
  execute : σ → Step → Json → Except Failure Json × σ

/-- One call of an executor. -/
structure Call where
  step : Step
  params : Json
deriving DecidableEq, Repr

inductive FailurePolicy where
  | stop
  | continue
deriving DecidableEq, Repr

/-- The policy of a document: to stop, unless it says `continue`. -/
def FailurePolicy.ofDocument (document : Json) : FailurePolicy :=
  let onError :=
    ((document.field? "error_handling").bind fun h => h.field? "on_error").bind Json.text?
  if onError = some "continue" then .continue else .stop

/-- A step that failed without stopping the run. -/
structure FailedStep where
  step : String
  message : String
deriving DecidableEq, Repr

/-- A run that reached its end. -/
structure Run where
  /-- The context with the output of every step. -/
  context : Context
  /-- The ids of the steps, in order. -/
  executed : List String
  failures : List FailedStep
  /-- The resolved outputs; `null` if the document has none. -/
  outputs : Json
deriving DecidableEq, Repr

namespace Run

def toJson (run : Run) : Json :=
  .obj [("executed", .arr (run.executed.map .str)),
    ("failures", .arr (run.failures.map fun f =>
      .obj [("step", .str f.step), ("message", .str f.message)])),
    ("outputs", run.outputs)]

end Run

def Step.resolveParams (supply : Supply) (context : Context) (step : Step) : Json :=
  Template.resolve supply context step.params

namespace Workflow

/-- How far a run has come. -/
structure Progress (σ : Type) where
  context : Context
  state : σ
  calls : List Call := []
  executed : List String := []
  failures : List FailedStep := []

variable {σ : Type}

def Progress.record (progress : Progress σ) (step : Step) (output : Json) : Progress σ :=
  { progress with
    context := progress.context.recordStep step.id output
    executed := progress.executed ++ [step.id] }

/-- Run steps; the failure that stopped them comes with how far they came. -/
def runSteps (executor : Executor σ) (policy : FailurePolicy) (supply : Supply) :
    Progress σ → List Step → Progress σ × Option Failure
  | progress, [] => (progress, none)
  | progress, step :: rest =>
    let params := step.resolveParams supply.left progress.context
    let (result, state) := executor.execute progress.state step params
    let called : Progress σ :=
      { progress with state := state, calls := progress.calls ++ [Call.mk step params] }
    match result with
    | .ok output => runSteps executor policy supply.right (called.record step output) rest
    | .error failure =>
      match policy with
      | .stop => (called, some failure)
      | .continue =>
        let failed : Progress σ :=
          { called with failures := called.failures ++ [FailedStep.mk step.id failure.message] }
        runSteps executor policy supply.right (failed.record step .null) rest

/-- What became of a run: its end or the failure that stopped it, the calls that
    were made, and the state the executor was left in. -/
structure Outcome (σ : Type) where
  calls : List Call
  state : σ
  result : Except Failure Run

/-- Run a workflow from a context and a state of the executor. -/
def run (executor : Executor σ) (supply : Supply) (document : Json) (context : Context)
    (state : σ) : Outcome σ :=
  match Document.readSteps document with
  | .error failure => ⟨[], state, .error failure⟩
  | .ok steps =>
    let policy := FailurePolicy.ofDocument document
    let start : Progress σ := { context := context, state := state }
    let (progress, stopped) := runSteps executor policy supply.left start steps
    let result :=
      match stopped with
      | some failure => .error failure
      | none =>
        let outputs := ((document.field? "outputs").map
          (Template.resolve supply.right progress.context)).getD .null
        .ok ⟨progress.context, progress.executed, progress.failures, outputs⟩
    ⟨progress.calls, progress.state, result⟩

end Workflow
end FlowDocs
