/-
  FlowDocs/Main.lean
  ==================
  **The program.**

  It reads the part of the disk that a command looks at into a tree, carries the
  command out on the tree, and makes the same changes on the disk.  A file is
  written beside its place and then moved there, so it is never seen half written.
-/
import FlowDocs.Command.World
import FlowDocs.Identifier
import FlowDocs.Instant
import Std.Time.DateTime

open FlowDocs

namespace FlowDocs.Main

/-! ### From the disk -/

/-- The content of a file if it is a document; no other file is looked into. -/
def documentContent (name path : String) : IO ByteArray :=
  if Document.isFileName name then IO.FS.readBinFile path else pure ByteArray.empty

/-- The documents at a path with a name, as a node. -/
partial def loadDocuments (name path : String) : IO Node := do
  let place := (← IO.currentDir) / path
  if ← place.isDir then
    if Document.isHidden name then pure (.directory [])
    else
      let mut entries : Fields Node := []
      for entry in ← place.readDir do
        let node ← loadDocuments entry.fileName (PathName.join path entry.fileName)
        entries := entries ++ [(entry.fileName, node)]
      pure (.directory entries)
  else pure (.file (← documentContent name path))

/-- What is at a place, with what is known of it already; a directory that is new
    comes without its entries. -/
def loadEntry (fs : FileSystem) (names : List String) : IO (Option Node) := do
  let path := PathName.ofLocation names
  let place := (← IO.currentDir) / path
  if ← place.isDir then
    pure (some ((fs.root.at? names).getD (.directory [])))
  else if ← place.pathExists then
    pure (some (.file (← IO.FS.readBinFile path)))
  else pure none

/-- Follow steps from a place, adding what is found on the way. -/
def loadSteps (extent : Extent) : FileSystem → List String → List String → IO FileSystem
  | fs, names, [] => do
    let path := PathName.ofLocation names
    if extent = .documents ∧ (← ((← IO.currentDir) / path).isDir) then
      pure (fs.put names (← loadDocuments "" path))
    else pure fs
  | fs, names, step :: rest => do
    let names :=
      if step = "." then names else if step = ".." then names.dropLast else names ++ [step]
    match ← loadEntry fs names with
    | none => pure fs
    | some node => loadSteps extent (fs.put names node) names rest

/-- The file system as far as some paths reach. -/
def load (workingDirectory : List String) (footprint : List (String × Extent)) :
    IO FileSystem := do
  let mut fs : FileSystem :=
    ⟨.put (.directory []) workingDirectory (.directory []), workingDirectory⟩
  for (text, extent) in footprint do
    let path := PathName.ofText text
    fs ← loadSteps extent fs (fs.start path) path.steps
  pure fs

/-! ### To the disk -/

/-- Write a file beside its place and move it there. -/
def writeFile (path : String) (content : ByteArray) : IO Unit := do
  match Disk.temporaryFor? path with
  | none => IO.FS.writeBinFile path content
  | some temporary =>
    IO.FS.writeBinFile temporary content
    IO.FS.rename temporary path

/-- Make the disk at a path, where the old node stands, look like the new one. -/
partial def save (path : String) (old : Option Node) (new : Node) : IO Unit := do
  match new with
  | .file content =>
    match old with
    | some (.file before) => if before = content then pure () else writeFile path content
    | _ => writeFile path content
  | .directory entries =>
    let before ← match old with
      | some (.directory before) => pure before
      | _ => do
        IO.FS.createDir path
        pure []
    for (name, _) in before do
      if (Fields.get? entries name).isNone then IO.FS.removeFile (PathName.join path name)
    for (name, node) in entries do
      save (PathName.join path name) (Fields.get? before name) node

/-! ### The command line -/

def helpText : String :=
  "Validate, store and resolve .0n documents.\n\n" ++
  "Usage: dot0n [-v]... <command>\n\n" ++
  "  validate <path>              check a document, or every document below a directory\n" ++
  "  test [<dir>]                 check that all documents of a directory are valid\n" ++
  "  init                         make the store\n" ++
  "  create <type> [--name <text>] [--description <text>] [--service <text>] [-o <file>]\n" ++
  "                               print or write a new document\n" ++
  "  list <type>                  list the documents of the store\n" ++
  "  resolve <file> [--inputs <json>] [--input <key>=<value>]... [--steps <json>]\n" ++
  "                               resolve the templates of a JSON file\n" ++
  "  help [<command>]             show this text"

def versionText : String := "dot0n 1.1.0"

/-- A text that the system keeps in a file; empty if it cannot be read. -/
def systemText (path : String) : IO String := do
  try
    pure ((String.fromUTF8? (← IO.FS.readBinFile path)).getD "")
  catch _ => pure ""

/-- The environment, the account's home, the time and a random seed. -/
def surroundings : IO Surroundings := do
  let environment := Variables.ofBlock (← systemText "/proc/self/environ")
  let number := (userNumber? (← systemText "/proc/self/status")).getD ""
  let home := accountHome? (← systemText "/etc/passwd") number
  let clock := (← Std.Time.Timestamp.now).toMillisecondsSinceUnixEpoch.val.toNat
  let seed := (← IO.getRandomBytes 16).toList.foldl (fun n byte => n * 256 + byte.toNat) 0
  pure ⟨environment, home, Supply.ofSeed (Instant.text clock) seed⟩

def carryOut (command : Command) : IO UInt32 := do
  let surroundings ← surroundings
  let here := PathName.ofText (← IO.currentDir).toString
  let before ← load here.steps (command.footprint surroundings)
  let outcome := command.execute surroundings before
  save "/" (some before.root) outcome.fileSystem.root
  (← IO.getStdout).putStr outcome.output
  match outcome.failure with
  | none => pure ()
  | some failure => (← IO.getStderr).putStrLn ("Error: " ++ failure.message)
  pure outcome.exitCode.toUInt32

end FlowDocs.Main

/-- Read the command line and carry out what it asks for. -/
def main (arguments : List String) : IO UInt32 := do
  match Invocation.ofArguments arguments with
  | .error usage =>
    match usage with
    | .help => (← IO.getStdout).putStrLn FlowDocs.Main.helpText
    | .version => (← IO.getStdout).putStrLn FlowDocs.Main.versionText
    | .mistake => (← IO.getStderr).putStrLn FlowDocs.Main.helpText
    pure usage.exitCode.toUInt32
  | .ok invocation =>
    try
      FlowDocs.Main.carryOut invocation.command
    catch error =>
      (← IO.getStderr).putStrLn ("Error: " ++ toString error)
      pure 3
