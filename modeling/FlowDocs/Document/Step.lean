/-
  FlowDocs/Document/Step.lean
  ===========================
  **The steps of a workflow.**

  A step names a service and an action and carries parameters; every other field
  of it is kept as it is.  Reading a step is strict, and reading the steps of a
  document names the first that is not one.
-/
import FlowDocs.Failure

namespace FlowDocs

structure Step where
  id : String
  service : String
  action : String
  /-- May hold placeholders. -/
  params : Json := .null
  /-- The other fields, in order. -/
  extra : Json.Object := []
deriving DecidableEq, Repr

namespace Step

/-- What has been read of a step. -/
structure Draft where
  id : Option String := none
  service : Option String := none
  action : Option String := none
  params : Option Json := none
  extra : Json.Object := []
deriving Repr

/-- Read fields one after another into the step so far. -/
def decodeFields : Draft → List (String × Json) → Except Json.ShapeError Draft
  | draft, [] => .ok draft
  | draft, (name, value) :: rest =>
    if name = "id" then
      match Json.asString value with
      | .error e => .error e
      | .ok text => decodeFields { draft with id := some text } rest
    else if name = "service" then
      match Json.asString value with
      | .error e => .error e
      | .ok text => decodeFields { draft with service := some text } rest
    else if name = "action" then
      match Json.asString value with
      | .error e => .error e
      | .ok text => decodeFields { draft with action := some text } rest
    else if name = "params" then decodeFields { draft with params := some value } rest
    else decodeFields { draft with extra := draft.extra ++ [(name, value)] } rest

/-- The step of a draft; the first field that is missing refuses it. -/
def Draft.finish (draft : Draft) : Except Json.ShapeError Step :=
  match draft.id with
  | none => .error (.missing "id")
  | some id =>
    match draft.service with
    | none => .error (.missing "service")
    | some service =>
      match draft.action with
      | none => .error (.missing "action")
      | some action => .ok ⟨id, service, action, draft.params.getD .null, draft.extra⟩

def decode (value : Json) : Except Json.ShapeError Step :=
  match Json.asRecord "Step" value with
  | .error e => .error e
  | .ok fields =>
    match decodeFields {} fields with
    | .error e => .error e
    | .ok draft => draft.finish

/-- The step as a value, the other fields last. -/
def toJson (step : Step) : Json :=
  .obj (("id", .str step.id) :: ("service", .str step.service) ::
    ("action", .str step.action) :: ("params", step.params) :: step.extra)

end Step

namespace Document

/-- Read steps, the first of which has the given number. -/
def decodeSteps : Nat → List Json → Except Failure (List Step)
  | _, [] => .ok []
  | number, value :: rest =>
    match Step.decode value with
    | .error e => .error (.invalid [.stepShape number e])
    | .ok step =>
      match decodeSteps (number + 1) rest with
      | .error e => .error e
      | .ok steps => .ok (step :: steps)

def readSteps (document : Json) : Except Failure (List Step) :=
  match (document.field? "steps").bind Json.items? with
  | none => .error (.invalid [.stepsNotArray])
  | some steps => decodeSteps 1 steps

end Document
end FlowDocs
