/-
  FlowDocs/Document/Problem.lean
  ==============================
  **What can be wrong with a document.**

  Problems make a document invalid, warnings do not.  The wording of each stands
  here once; everything else speaks of causes.
-/
import FlowDocs.FileSystem.OsError
import FlowDocs.Json.Reader
import FlowDocs.Json.Shape
import FlowDocs.Document.Kind

namespace FlowDocs

/-- The fields every step of a workflow needs, in the order they are checked. -/
inductive StepField where
  | id
  | service
  | action
deriving DecidableEq, Repr

namespace StepField

def all : List StepField := [.id, .service, .action]

def name : StepField → String
  | .id => "id"
  | .service => "service"
  | .action => "action"

end StepField

/-- Something wrong with a document.  Steps count from 1. -/
inductive Problem where
  | missingHeader
  | missingKind
  | missingVersion
  | connectionService
  | connectionAuth
  | connectionAuthType
  | readSteps
  | stepField (step : Nat) (field : StepField)
  | snapshotComponents
  | stepsNotArray
  | stepShape (step : Nat) (error : Json.ShapeError)
  | unreadable (cause : OsError)
  | malformed (error : Json.SyntaxError)
  | other (text : String)
deriving Repr

def Problem.message : Problem → String
  | .missingHeader => "Missing $0n header"
  | .missingKind => "Missing $0n.type"
  | .missingVersion => "Missing $0n.version"
  | .connectionService => "Connection: missing \"service\""
  | .connectionAuth => "Connection: missing \"auth\""
  | .connectionAuthType => "Connection: missing \"auth.type\""
  | .readSteps => "Workflow: missing or empty \"steps\" array"
  | .stepField step field =>
    "Workflow: step " ++ toString step ++ " missing \"" ++ field.name ++ "\""
  | .snapshotComponents => "Snapshot: missing \"components\""
  | .stepsNotArray => "Workflow: missing or invalid \"steps\" array"
  | .stepShape step error =>
    "Workflow: step " ++ toString step ++ " is invalid: " ++ error.message
  | .unreadable cause => "Error reading file: " ++ cause.message
  | .malformed error => "Invalid JSON: " ++ error.message
  | .other text => text

/-- Something odd about a valid document. -/
inductive Warning where
  | snapshotTarget
deriving DecidableEq, Repr

def Warning.message : Warning → String
  | .snapshotTarget => "Snapshot: missing \"target\""

end FlowDocs
