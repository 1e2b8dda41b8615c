/-
  FlowDocs/Document/Report.lean
  =============================
  **Whether a document is valid.**

  A document needs an envelope with a kind and a version, and what its kind asks
  for.  Presence is truth in the sense of JSON: a field that is `null`, `false`,
  zero or the empty string counts as absent.  A report lists every problem in a
  fixed order; the document is valid when there is none.
-/
import FlowDocs.Document.Problem

namespace FlowDocs

def isPresent : Option Json → Bool
  | none => false
  | some .null => false
  | some (.bool value) => value
  | some (.num n) => !(n.toFloat == 0.0)
  | some (.str text) => text ≠ ""
  | some (.arr _) => true
  | some (.obj _) => true

/-- A scalar of the envelope as text: a string as it is, anything else in compact
    form. -/
def envelopeText : Json → String
  | .str text => text
  | other => other.compact

structure Report where
  /-- The file the document came from. -/
  file : Option String := none
  problems : List Problem := []
  warnings : List Warning := []
  kind : Option String := none
  version : Option String := none
deriving Repr

namespace Report

/-- A document without a problem is valid. -/
def valid (report : Report) : Bool := report.problems.isEmpty

/-- The report as a value; the file comes first if there is one. -/
def toJson (report : Report) : Json :=
  let text : Option String → Json := fun t => t.elim .null .str
  .obj ((report.file.map fun file => ("file", Json.str file)).toList ++
    [("valid", .bool report.valid),
     ("errors", .arr (report.problems.map fun p => .str p.message)),
     ("warnings", .arr (report.warnings.map fun w => .str w.message)),
     ("type", text report.kind),
     ("version", text report.version)])

end Report

namespace Document

/-- What a connection lacks: its service, and the way it authenticates. -/
def connectionProblems (data : Json) : List Problem :=
  let service := if isPresent (data.field? "service") then [] else [.connectionService]
  let auth :=
    match data.field? "auth" with
    | none => [.connectionAuth]
    | some auth =>
      if ¬isPresent (some auth) then [.connectionAuth]
      else if ¬isPresent (auth.field? "type") then [.connectionAuthType]
      else []
  service ++ auth

def stepProblems (number : Nat) (step : Json) : List Problem :=
  StepField.all.filterMap fun field =>
    if isPresent (step.field? field.name) then none else some (.stepField number field)

/-- What the steps lack, the first having the given number. -/
def stepsProblems : Nat → List Json → List Problem
  | _, [] => []
  | number, step :: rest => stepProblems number step ++ stepsProblems (number + 1) rest

def workflowProblems (data : Json) : List Problem :=
  match (data.field? "steps").bind Json.items? with
  | none => [.readSteps]
  | some [] => [.readSteps]
  | some steps => stepsProblems 1 steps

def snapshotProblems (data : Json) : List Problem :=
  if isPresent (data.field? "components") then [] else [.snapshotComponents]

def bodyProblems (data : Json) : Option Kind → List Problem
  | some .connection => connectionProblems data
  | some .workflow => workflowProblems data
  | some .snapshot => snapshotProblems data
  | some .config => []
  | some .execution => []
  | none => []

def bodyWarnings (data : Json) : Option Kind → List Warning
  | some .snapshot => if isPresent (data.field? "target") then [] else [.snapshotTarget]
  | _ => []

/-- The envelope, if it counts as present. -/
def envelope? (data : Json) : Option Json :=
  (data.field? envelopeName).filter fun envelope => isPresent (some envelope)

def validate (data : Json) : Report :=
  match envelope? data with
  | none => { problems := [.missingHeader] }
  | some envelope =>
    let kind := (envelope.field? "type").filter fun value => isPresent (some value)
    let version := (envelope.field? "version").filter fun value => isPresent (some value)
    let known := ((envelope.field? "type").bind Json.text?).bind Kind.ofName?
    { problems :=
        (if kind.isSome then [] else [.missingKind]) ++
        (if version.isSome then [] else [.missingVersion]) ++
        bodyProblems data known
      warnings := bodyWarnings data known
      kind := kind.map envelopeText
      version := version.map envelopeText }

/-- Whether a file name is that of a document. -/
def isFileName (name : String) : Bool :=
  ".0n".toList.isSuffixOf name.toList || ".0n.json".toList.isSuffixOf name.toList

end Document
end FlowDocs
