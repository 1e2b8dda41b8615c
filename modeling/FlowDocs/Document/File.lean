/-
  FlowDocs/Document/File.lean
  ===========================
  **Documents in files.**

  Reading and saving single documents, and validating every document below a
  directory.  Validation never fails because of what a file holds: a file that
  cannot be read and a text that is no JSON are problems of the report.  The
  reports of a directory come in the order of the names in it, each subdirectory
  in the place of its name; a subdirectory whose name starts with a point is left
  out.
-/
import FlowDocs.Document.Creation
import FlowDocs.Document.Parsed
import FlowDocs.FileSystem.Disk

namespace FlowDocs.Document

/-! ### One document -/

def readValue (path : String) : Disk Json := do
  match Json.parse (← Disk.readText path) with
  | .ok value => pure value
  | .error error => throw (.malformed error)

/-- Read a document and accept it if it is valid. -/
def parseFile (path : String) : Disk Parsed := do
  match parse (← readValue path) with
  | .ok parsed => pure parsed
  | .error failure => throw failure

/-- Write a document to a file, stamped with the time.  The answer is the document
    as it was written. -/
def save (now : String) (document : Json) (path : String) : Disk Json := do
  let stamped := stamp now document
  Disk.writeValue path stamped
  pure stamped

/-! ### Reports on files -/

/-- The report on a file whose text has been read, or could not be. -/
def reportOn (path : String) (content : Except OsError String) : Report :=
  match content with
  | .error cause => { file := some path, problems := [.unreadable cause] }
  | .ok text =>
    match Json.parse text with
    | .error error => { file := some path, problems := [.malformed error] }
    | .ok value => { validate value with file := some path }

def fileReport (fs : FileSystem) (path : String) : Report := reportOn path (fs.readText path)

/-- The text of a file at a path, which can be too long to reach the file. -/
def textAt (path : String) (content : ByteArray) : Except OsError String :=
  if FileSystem.tooLong path then .error .nameTooLong
  else
    match String.fromUTF8? content with
    | some text => .ok text
    | none => .error .notUtf8

/-- Put what belongs to names into the order of the names. -/
def inNameOrder {α : Type} (named : List (String × α)) : List (String × α) :=
  named.mergeSort fun a b => a.1 ≤ b.1

def isHidden (name : String) : Bool := name.toList.head? = some '.'

mutual

/-- The reports on the documents of a node that has a name and stands at a path. -/
def nodeReports (path name : String) : Node → List Report
  | .file content => if isFileName name then [reportOn path (textAt path content)] else []
  | .directory entries =>
    if FileSystem.tooLong path then
      if isFileName name then [reportOn path (.error .nameTooLong)] else []
    else if isHidden name then []
    else (inNameOrder (entryReports path entries)).flatMap Prod.snd

/-- The reports on the documents of each entry of the directory at a path. -/
def entryReports (path : String) : List (String × Node) → List (String × List Report)
  | [] => []
  | (name, node) :: rest =>
    (name, nodeReports (PathName.join path name) name node) :: entryReports path rest

end

/-- The reports on the documents of the directory at a path. -/
def directoryReports (path : String) (entries : Fields Node) : List Report :=
  (inNameOrder (entryReports path entries)).flatMap Prod.snd

/-- Validate every document below a directory. -/
def reportsBelow (path : String) : Disk (List Report) := do
  let entries ← Disk.query .readDirectory path fun fs => fs.entries path
  pure (directoryReports path entries)

end FlowDocs.Document
