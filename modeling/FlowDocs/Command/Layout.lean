/-
  FlowDocs/Command/Layout.lean
  ============================
  **The lines that commands print.**

  A line with a mark tells about one file or one action; notes on it follow
  below, indented.  Everything here is a list of lines, without their ends.
-/
import FlowDocs.Document.Report
import FlowDocs.FileSystem.PathName
import FlowDocs.Store

namespace FlowDocs.Layout

/-- What a line tells. -/
inductive Mark where
  | info
  | success
  | error
  | warning
deriving DecidableEq, Repr

def Mark.sign : Mark → String
  | .info => "i"
  | .success => "+"
  | .error => "x"
  | .warning => "!"

def headline (mark : Mark) (text : String) : String := mark.sign ++ " " ++ text

/-- A note on the line above. -/
def note (text : String) : String := "   | " ++ text

/-- A text filled up with blanks to a width. -/
def padded (width : Nat) (text : String) : String :=
  text ++ String.ofList (List.replicate (width - text.length) ' ')

/-! ### Reports -/

def problems (report : Report) : List String :=
  report.problems.map fun problem => note problem.message

/-- The lines of a report that was asked for: problems, then warnings. -/
def report (report : Report) : List String :=
  let file := report.file.getD "<document>"
  (if report.valid then [headline .success file]
    else headline .error file :: problems report) ++
    report.warnings.map fun warning => note ("warning: " ++ warning.message)

/-- The lines of a report in a test run: the name of the file alone, and problems. -/
def testReport (report : Report) : List String :=
  let name := (report.file.bind PathName.fileName?).getD ""
  if report.valid then [headline .success ("PASS: " ++ name)]
  else headline .error ("FAIL: " ++ name) :: problems report

def invalidCount (reports : List Report) : Nat := reports.countP fun report => !report.valid

def validCount (reports : List Report) : Nat := reports.countP Report.valid

def validation (reports : List Report) : List String :=
  [""] ++ reports.flatMap report ++
    ["", "Results: " ++ toString (validCount reports) ++ " valid, " ++
      toString (invalidCount reports) ++ " invalid"]

def testRun (reports : List Report) : List String :=
  reports.flatMap testReport ++
    ["", "Tests: " ++ toString (validCount reports) ++ " passed, " ++
      toString (invalidCount reports) ++ " failed"]

/-! ### The store -/

def settings (settings : Settings) : List String :=
  let onOff (flag : Bool) : String := if flag then "on" else "off"
  [note ("ai provider:   " ++ settings.aiProvider),
    note ("fallback mode: " ++ settings.fallbackMode),
    note ("history:       " ++ onOff settings.historyEnabled),
    note ("cache:         " ++ onOff settings.cacheEnabled)]

def establishment (done : Store.Establishment) : List String :=
  done.created.map (fun path => headline .success ("Created " ++ path)) ++
    done.existing.map (fun path => headline .info ("Already exists: " ++ path)) ++
    done.config.toList.map fun path => headline .success ("Created " ++ path)

def nextSteps (store : Store) : List String :=
  ["", store.directory ++ " initialized!", "", "Next steps:",
    "  1. Add connections: " ++ store.inside "connections/stripe.0n",
    "  2. Create workflows: " ++ store.inside "workflows/my-workflow.0n",
    "  3. Validate them:    dot0n validate " ++ store.directory]

def listed (listed : Store.Listed) : String :=
  let name := match listed.document.name with
    | none => "-"
    | some name => if name = "" then "-" else name
  "  " ++ padded 32 listed.file ++ " " ++ padded 24 name ++ " v" ++ listed.document.version

def list (store : Store) (kind : Kind) (documents : List Store.Listed) : List String :=
  if documents.isEmpty then
    ["No " ++ kind.name ++ " documents in " ++ store.kindDirectory kind ++ "."]
  else
    (kind.directory ++ " (" ++ toString documents.length ++ "):") :: documents.map listed

end FlowDocs.Layout
