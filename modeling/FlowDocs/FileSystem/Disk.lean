/-
  FlowDocs/FileSystem/Disk.lean
  =============================
  **Work on a file system that can fail half way.**

  `Disk` is the type of work that reads and changes a file system and may fail;
  what was changed before the failure stays changed.  `writeWhole` is the one way
  in which documents are written: the content goes to a temporary file beside the
  target, which then takes the target's place, so the target holds either its old
  content or all of the new one.  When it cannot take the place, the temporary
  file is removed again.
-/
import FlowDocs.Failure
import FlowDocs.FileSystem.Basic

namespace FlowDocs

/-- Work on a file system. -/
abbrev Disk (α : Type) := ExceptT Failure (StateM FileSystem) α

namespace Disk

/-- Read from the file system; a cause of refusal fails the attempt. -/
def query {α : Type} (attempt : Attempt) (path : String)
    (read : FileSystem → Except OsError α) : Disk α := do
  match read (← get) with
  | .ok value => pure value
  | .error cause => throw (.io attempt path cause)

/-- Change the file system; a cause of refusal fails the attempt. -/
def change (attempt : Attempt) (path : String)
    (step : FileSystem → Except OsError FileSystem) : Disk Unit := do
  set (← query attempt path step)

def readText (path : String) : Disk String :=
  query .read path fun fs => fs.readText path

/-- Make a directory and the directories above it that are missing. -/
def createDirectories (attempt : Attempt) (path : String) : Disk Unit := do
  let (result, fs) := FileSystem.makeDirectories (PathName.ancestors path) (← get)
  set fs
  match result with
  | .ok () => pure ()
  | .error cause => throw (.io attempt path cause)

/-- Make sure of a directory.  The answer says whether it had to be made. -/
def provideDirectory (path : String) : Disk Bool := do
  if (← get).isDirectory path then pure false
  else
    createDirectories .createDirectory path
    pure true

/-! ### Writing a file -/

/-- The temporary file beside a target: its name with a point in front and `.tmp`
    behind.  A path without a name has none. -/
def temporaryFor? (path : String) : Option String :=
  (PathName.fileName? path).map fun name =>
    PathName.join ((PathName.parent? path).getD ".") ("." ++ name ++ ".tmp")

/-- Make the directory that is to hold a file, if there is nothing in its place. -/
def createParent (path : String) : Disk Unit := do
  match PathName.parent? path with
  | none => pure ()
  | some parent =>
    if parent = "" || (← get).isThere parent then pure ()
    else createDirectories .createParent parent

/-- Let a file take the place of another.  If it cannot, it is removed. -/
def replace (temporary path : String) : Disk Unit := do
  let fs ← get
  match fs.renameFile temporary path with
  | .ok after => set after
  | .error cause =>
    match fs.removeFile temporary with
    | .ok after => set after
    | .error _ => pure ()
    throw (.io .replace path cause)

/-- Write a file as a whole or not at all, making its directory if need be. -/
def writeWhole (path : String) (content : ByteArray) : Disk Unit := do
  createParent path
  match temporaryFor? path with
  | none => throw (.user (.invalidPath path))
  | some temporary =>
    change .createTemporary temporary fun fs => fs.createFile temporary content
    replace temporary path

def writeText (path text : String) : Disk Unit := writeWhole path text.toUTF8

def writeValue (path : String) (value : Json) : Disk Unit := writeText path value.pretty

end Disk
end FlowDocs
