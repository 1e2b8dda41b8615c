/-
  FlowDocs/Proofs/Workflow/Turns.lean
  ===================================
  **Calls, answers and what they leave in a context.**

  A turn is a call together with the executor's answer.  The executor is a machine
  that starts in a state, so its turns are a function of the calls it is given
  (`Executor.turns`), and what they leave in a context is a function of the turns
  (`Context.after`).  One turn sets the output of its step (`Context.Records`); turns
  change the outputs of their own steps and nothing else.
-/
import FlowDocs.Document.Workflow
import Mathlib

namespace FlowDocs

variable {σ : Type}

/-- A call of an executor and the answer to it. -/
structure Turn where
  call : Call
  answer : Except Failure Json

namespace Turn

def id (turn : Turn) : String := turn.call.step.id

def failure? (turn : Turn) : Option Failure :=
  match turn.answer with
  | .ok _ => none
  | .error failure => some failure

/-- What stands under the step's id afterwards: its output, or `null` if it failed. -/
def output (turn : Turn) : Json :=
  match turn.answer with
  | .ok value => value
  | .error _ => .null

def failed? (turn : Turn) : Option FailedStep :=
  turn.failure?.map fun failure => ⟨turn.id, failure.message⟩

theorem failure?_eq_some_iff {turn : Turn} {failure : Failure} :
    turn.failure? = some failure ↔ turn.answer = .error failure := by
  unfold failure?
  cases turn.answer <;> simp

theorem failure?_eq_none_iff {turn : Turn} :
    turn.failure? = none ↔ ∃ value, turn.answer = .ok value := by
  unfold failure?
  cases turn.answer <;> simp

theorem output_of_ok {turn : Turn} {value : Json} (h : turn.answer = .ok value) :
    turn.output = value := by
  rw [output, h]

theorem output_of_error {turn : Turn} {failure : Failure} (h : turn.answer = .error failure) :
    turn.output = .null := by
  rw [output, h]

end Turn

/-! ### Calls, one after another -/

/-- The state an executor is in after calls. -/
def Executor.stateAfter (executor : Executor σ) (state : σ) (calls : List Call) : σ :=
  calls.foldl (fun state call => (executor.execute state call.step call.params).2) state

/-- The turns of an executor that is given calls. -/
def Executor.turns (executor : Executor σ) : σ → List Call → List Turn
  | _, [] => []
  | state, call :: rest =>
    ⟨call, (executor.execute state call.step call.params).1⟩ ::
      executor.turns (executor.execute state call.step call.params).2 rest

/-- A context after turns: each has recorded its output under its step's id. -/
def Context.after (context : Context) (turns : List Turn) : Context :=
  turns.foldl (fun context turn => context.recordStep turn.id turn.output) context

/-- The second context is the first one with a value set as the output of a step: in its
    place if the step already had an output, else behind the other outputs. -/
structure Context.Records (before : Context) (id : String) (value : Json) (after : Context) :
    Prop where
  own : Fields.get? after.steps id = some value
  others : ∀ other, other ≠ id → Fields.get? after.steps other = Fields.get? before.steps other
  names : Fields.names after.steps
    = if id ∈ Fields.names before.steps then Fields.names before.steps
      else Fields.names before.steps ++ [id]
  inputs : after.inputs = before.inputs
  env : after.env = before.env
  extra : after.extra = before.extra

/-- The part of a supply that the parameters of a step are resolved with; steps count
    from zero. -/
def Supply.forStep (supply : Supply) : Nat → Supply
  | 0 => supply.left
  | k + 1 => supply.right.forStep k

theorem Executor.turns_take (executor : Executor σ) (state : σ) (calls : List Call) (k : Nat) :
    executor.turns state (calls.take k) = (executor.turns state calls).take k := by
  induction calls generalizing state k with
  | nil => simp [turns]
  | cons call rest ih =>
    cases k with
    | zero => rfl
    | succ k => rw [List.take_succ_cons, turns, turns, List.take_succ_cons, ih]

namespace Context

theorem after_cons (context : Context) (turn : Turn) (rest : List Turn) :
    context.after (turn :: rest) = (context.recordStep turn.id turn.output).after rest :=
  rfl

theorem after_append (context : Context) (turns more : List Turn) :
    context.after (turns ++ more) = (context.after turns).after more :=
  List.foldl_append

theorem records_recordStep (context : Context) (id : String) (value : Json) :
    context.Records id value (context.recordStep id value) where
  own := by rw [recordStep, Fields.get?_set, if_pos rfl]
  others other hother := by rw [recordStep, Fields.get?_set, if_neg hother]
  names := Fields.names_set context.steps id value
  inputs := rfl
  env := rfl
  extra := rfl

/-- From one turn to the next, the output of the turn's step is set. -/
theorem records_after (context : Context) {turns : List Turn} {k : Nat} {turn : Turn}
    (h : turns[k]? = some turn) :
    (context.after (turns.take k)).Records turn.id turn.output
      (context.after (turns.take (k + 1))) := by
  have htake : turns.take (k + 1) = turns.take k ++ [turn] := by
    rw [List.take_add_one, h, Option.toList_some]
  rw [htake, after_append, after_cons]
  exact records_recordStep _ turn.id turn.output

/-- Turns change nothing but the outputs of steps. -/
theorem after_eq (context : Context) (turns : List Turn) :
    context.after turns = { context with steps := (context.after turns).steps } := by
  induction turns generalizing context with
  | nil => rfl
  | cons turn rest ih => rw [after_cons, ih]; rfl

theorem get?_steps_after (context : Context) {turns : List Turn} {id : String}
    (h : ∀ turn ∈ turns, turn.id ≠ id) :
    Fields.get? (context.after turns).steps id = Fields.get? context.steps id := by
  induction turns generalizing context with
  | nil => rfl
  | cons turn rest ih =>
    have hturn : ¬ id = turn.id := fun e => h turn List.mem_cons_self e.symm
    have hrest := ih (context.recordStep turn.id turn.output)
      fun other hmem => h other (List.mem_cons_of_mem turn hmem)
    rw [after_cons, hrest]
    exact (records_recordStep context turn.id turn.output).others id hturn

/-- The last turn of an id leaves its output there. -/
theorem get?_steps_after_last (context : Context) {turns : List Turn} {i : Nat} {turn : Turn}
    (hturn : turns[i]? = some turn) (h : ∀ later ∈ turns.drop (i + 1), later.id ≠ turn.id) :
    Fields.get? (context.after turns).steps turn.id = some turn.output := by
  obtain ⟨hlt, heq⟩ := List.getElem?_eq_some_iff.mp hturn
  have hsplit : turns = turns.take i ++ turn :: turns.drop (i + 1) := by
    rw [← heq, ← List.drop_eq_getElem_cons hlt, List.take_append_drop]
  rw [hsplit, after_append, after_cons, get?_steps_after _ h]
  exact (records_recordStep _ turn.id turn.output).own

end Context

end FlowDocs
