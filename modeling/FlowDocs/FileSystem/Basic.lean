/-
  FlowDocs/FileSystem/Basic.lean
  ==============================
  **What a file system does with one path.**

  A file system is a tree and the place of its working directory.  Every operation
  walks its path step by step through directories that exist; `..` goes up.  An
  operation either gives the file system after it or the cause why it was refused,
  and then nothing has changed.
-/
import FlowDocs.FileSystem.OsError
import FlowDocs.FileSystem.PathName
import FlowDocs.FileSystem.Tree

namespace FlowDocs

/-- A tree of directories and files, seen from a working directory. -/
structure FileSystem where
  root : Node
  /-- The names from the root to the working directory. -/
  workingDirectory : List String

namespace FileSystem

/-! ### Walking -/

/-- The longest name, in bytes. -/
def maxName : Nat := 255

/-- A path of this many bytes or more is refused. -/
def maxPath : Nat := 4096

def tooLong (text : String) : Bool := maxPath ≤ text.utf8ByteSize

def checked (text : String) : Except OsError PathName :=
  if text = "" then .error .notFound
  else if '\x00' ∈ text.toList then .error .nulInPath
  else if tooLong text then .error .nameTooLong
  else .ok (PathName.ofText text)

/-- Take one step from a place, which must be a directory. -/
def enter (root : Node) (place : List String) (step : String) : Except OsError (List String) :=
  match root.at? place with
  | some (.directory entries) =>
    if step = "." then .ok place
    else if step = ".." then .ok place.dropLast
    else if maxName < step.utf8ByteSize then .error .nameTooLong
    else if (Fields.get? entries step).isSome then .ok (place ++ [step])
    else .error .notFound
  | _ => .error .notDirectory

def follow (root : Node) : List String → List String → Except OsError (List String)
  | place, [] => .ok place
  | place, step :: rest =>
    match enter root place step with
    | .error cause => .error cause
    | .ok place => follow root place rest

def start (fs : FileSystem) (path : PathName) : List String :=
  if path.isAbsolute then [] else fs.workingDirectory

/-- The place of a path, and what is there. -/
def locate (fs : FileSystem) (text : String) : Except OsError (List String × Node) :=
  match checked text with
  | .error cause => .error cause
  | .ok path =>
    match follow fs.root (fs.start path) path.steps with
    | .error cause => .error cause
    | .ok place =>
      match fs.root.at? place with
      | none => .error .notFound
      | some node =>
        if path.wantsDirectory && !node.isDirectory then .error .notDirectory
        else .ok (place, node)

def isThere (fs : FileSystem) (text : String) : Bool := (fs.locate text).toBool

def isDirectory (fs : FileSystem) (text : String) : Bool :=
  match fs.locate text with
  | .ok (_, .directory _) => true
  | _ => false

def isFile (fs : FileSystem) (text : String) : Bool :=
  match fs.locate text with
  | .ok (_, .file _) => true
  | _ => false

/-! ### Reading -/

def readBytes (fs : FileSystem) (text : String) : Except OsError ByteArray :=
  match fs.locate text with
  | .error cause => .error cause
  | .ok (_, .directory _) => .error .isDirectory
  | .ok (_, .file content) => .ok content

def readText (fs : FileSystem) (text : String) : Except OsError String :=
  match fs.readBytes text with
  | .error cause => .error cause
  | .ok content =>
    match String.fromUTF8? content with
    | some content => .ok content
    | none => .error .notUtf8

def entries (fs : FileSystem) (text : String) : Except OsError (Fields Node) :=
  match fs.locate text with
  | .error cause => .error cause
  | .ok (_, .directory entries) => .ok entries
  | .ok (_, .file _) => .error .notDirectory

/-! ### Changing -/

/-- Where an entry is to be made or replaced. -/
structure Target where
  /-- The place of the directory that holds the entry. -/
  directory : List String
  entries : Fields Node
  /-- The name of the entry; none if the path ends in `.`, in `..` or at the root. -/
  name : Option String
  wantsDirectory : Bool

def Target.place (target : Target) (name : String) : List String := target.directory ++ [name]

/-- The target of a path.  The directory that holds the entry must exist, the entry
    itself need not. -/
def target (fs : FileSystem) (text : String) : Except OsError Target :=
  match checked text with
  | .error cause => .error cause
  | .ok path =>
    match follow fs.root (fs.start path) path.steps.dropLast with
    | .error cause => .error cause
    | .ok directory =>
      match fs.root.at? directory with
      | some (.directory entries) =>
        let name := path.steps.getLast?.filter fun name => name ≠ "." && name ≠ ".."
        .ok ⟨directory, entries, name, path.wantsDirectory⟩
      | _ => .error .notDirectory

def put (fs : FileSystem) (place : List String) (node : Node) : FileSystem :=
  { fs with root := Node.put node place fs.root }

def take (fs : FileSystem) (place : List String) : FileSystem :=
  { fs with root := Node.take place fs.root }

/-- Make a directory where nothing is yet. -/
def makeDirectory (fs : FileSystem) (text : String) : Except OsError FileSystem :=
  match fs.target text with
  | .error cause => .error cause
  | .ok target =>
    match target.name with
    | none => .error .exists
    | some name =>
      if maxName < name.utf8ByteSize then .error .nameTooLong
      else if (Fields.get? target.entries name).isSome then .error .exists
      else .ok (fs.put (target.place name) (.directory []))

/-- Make a file with a content, or give the file that is there a new content. -/
def createFile (fs : FileSystem) (text : String) (content : ByteArray) :
    Except OsError FileSystem :=
  match fs.target text with
  | .error cause => .error cause
  | .ok target =>
    match target.name with
    | none => .error .isDirectory
    | some name =>
      if target.wantsDirectory then .error .isDirectory
      else if maxName < name.utf8ByteSize then .error .nameTooLong
      else
        match Fields.get? target.entries name with
        | some (.directory _) => .error .isDirectory
        | _ => .ok (fs.put (target.place name) (.file content))

/-- Move a file to another path, replacing the file that is there. -/
def renameFile (fs : FileSystem) (source text : String) : Except OsError FileSystem :=
  match fs.locate source, fs.target text with
  | .error cause, _ => .error cause
  | .ok _, .error cause => .error cause
  | .ok (_, .directory _), .ok _ => .error .isDirectory
  | .ok (place, .file content), .ok target =>
    match target.name with
    | none => .error .busy
    | some name =>
      if maxName < name.utf8ByteSize then .error .nameTooLong
      else if target.wantsDirectory then .error .notDirectory
      else
        match Fields.get? target.entries name with
        | some (.directory _) => .error .isDirectory
        | _ => .ok ((fs.take place).put (target.place name) (.file content))

def removeFile (fs : FileSystem) (text : String) : Except OsError FileSystem :=
  match fs.locate text with
  | .error cause => .error cause
  | .ok (_, .directory _) => .error .isDirectory
  | .ok (place, .file _) => .ok (fs.take place)

/-- Make the first of some directories, each of which is above the one before.  As
    long as the one above is missing, that is made first.  A directory that is
    there already will do. -/
def makeDirectories : List String → FileSystem → Except OsError Unit × FileSystem
  | [], fs => (.ok (), fs)
  | text :: above, fs =>
    match fs.makeDirectory text with
    | .ok fs => (.ok (), fs)
    | .error .notFound =>
      match makeDirectories above fs with
      | (.error cause, fs) => (.error cause, fs)
      | (.ok _, fs) =>
        match fs.makeDirectory text with
        | .ok fs => (.ok (), fs)
        | .error cause => (if fs.isDirectory text then .ok () else .error cause, fs)
    | .error cause => (if fs.isDirectory text then .ok () else .error cause, fs)

end FileSystem
end FlowDocs
