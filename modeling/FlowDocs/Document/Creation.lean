/-
  FlowDocs/Document/Creation.lean
  ===============================
  **New documents.**

  A new document has an envelope stamped with the current time and the fields of
  its kind, filled in from the options where they say something.
-/
import FlowDocs.Settings

namespace FlowDocs

/-- What may be said about a new document.  Options that do not belong to its kind
    are ignored. -/
structure CreationOptions where
  version : Option String := none
  name : Option String := none
  description : Option String := none
  service : Option String := none
  environment : Option String := none
  authType : Option String := none
  credentials : Option Json := none
  trigger : Option Json := none
  inputs : Option Json := none
  steps : Option (List Json) := none
  target : Option Json := none
  components : Option Json := none
deriving Repr

namespace Document

/-- The fields a document of a kind has beside its envelope. -/
def body (kind : Kind) (options : CreationOptions) : Json.Object :=
  match kind with
  | .connection =>
    [("service", .str (options.service.getD "")),
     ("environment", .str (options.environment.getD "production")),
     ("auth", .obj
       [("type", .str (options.authType.getD "api_key")),
        ("credentials", options.credentials.getD (.obj []))]),
     ("options", .obj []),
     ("metadata", .obj [])]
  | .workflow =>
    [("trigger", options.trigger.getD (.obj [("type", .str "manual")])),
     ("inputs", options.inputs.getD (.obj [])),
     ("steps", .arr (options.steps.getD [])),
     ("outputs", .obj []),
     ("error_handling", .obj [("on_error", .str "stop")])]
  | .snapshot =>
    [("target", options.target.getD (.obj [])),
     ("components", options.components.getD (.obj [])),
     ("deployment", .obj
       [("strategy", .str "merge"),
        ("dry_run", .bool false),
        ("rollback_on_error", .bool true)])]
  | .config =>
    [("settings", Settings.toJson {}),
     ("default_services", .arr []),
     ("plugins", .arr [])]
  | .execution => []

def newEnvelope (kind : Kind) (options : CreationOptions) (now : String) : Json :=
  .obj
    [("type", .str kind.name),
     ("version", .str (options.version.getD "1.0.0")),
     ("created", .str now),
     ("name", .str (options.name.getD "")),
     ("description", .str (options.description.getD ""))]

def create (kind : Kind) (options : CreationOptions) (now : String) : Json :=
  .obj ((envelopeName, newEnvelope kind options now) :: body kind options)

/-- Note in the envelope when the document was last written.  A document whose
    envelope is no object stays as it is. -/
def stamp (now : String) (document : Json) : Json :=
  match document with
  | .obj fields =>
    match Fields.get? fields envelopeName with
    | some (.obj envelope) =>
      .obj (Fields.set fields envelopeName (.obj (Fields.set envelope "updated" (.str now))))
    | _ => document
  | _ => document

end Document
end FlowDocs
