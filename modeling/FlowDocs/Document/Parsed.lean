/-
  FlowDocs/Document/Parsed.lean
  =============================
  **Documents that passed validation.**
-/
import FlowDocs.Document.Report
import FlowDocs.Failure

namespace FlowDocs

/-- A valid document, with what its envelope says. -/
structure Parsed where
  kind : String
  version : String
  name : Option String
  description : Option String
  data : Json
deriving DecidableEq, Repr

namespace Parsed

/-- The fields of the record; a name or description that is absent is left out. -/
def fields (parsed : Parsed) : Json.Object :=
  let optional (key : String) (value : Option String) : Json.Object :=
    (value.map fun text => (key, Json.str text)).toList
  [("type", .str parsed.kind), ("version", .str parsed.version)] ++
    optional "name" parsed.name ++ optional "description" parsed.description ++
    [("data", parsed.data)]

def toJson (parsed : Parsed) : Json := .obj parsed.fields

end Parsed

namespace Document

/-- Accept a document if it is valid; otherwise give every problem. -/
def parse (data : Json) : Except Failure Parsed :=
  let report := validate data
  if report.valid then
    let text (key : String) : Option String :=
      ((data.field? envelopeName).bind fun envelope => envelope.field? key).bind Json.text?
    .ok ⟨report.kind.getD "", report.version.getD "", text "name", text "description", data⟩
  else .error (.invalid report.problems)

end Document
end FlowDocs
