/-
  FlowDocs/Store.lean
  ===================
  **The user's store of documents.**

  A store is a directory with one directory for each kind of document that is kept,
  some more for the program's own use, and the settings in `config.json`.  It lives
  where `DOT0N_HOME` says, or else in the user's home.
-/
import FlowDocs.Context
import FlowDocs.Document.File

namespace FlowDocs

/-- The settings of a file; the defaults if there is no such file. -/
def Settings.load (path : String) : Disk Settings := do
  if (← get).isThere path then
    pure (Settings.ofDocument (← Document.readValue path))
  else pure {}

/-- A store, named by its directory. -/
structure Store where
  directory : String
deriving DecidableEq, Repr

namespace Store

def subdirectories : List String :=
  ["connections", "workflows", "snapshots", "history", "cache", "plugins"]

/-- The value of a variable; one that is empty counts as not set. -/
def given? (environment : Variables) (name : String) : Option String :=
  match Fields.get? environment name with
  | some "" => none
  | value => value

/-- The store of a user whose account has the given home directory. -/
def locate (environment : Variables) (accountHome : Option String) : Except Failure Store :=
  match given? environment "DOT0N_HOME" with
  | some directory => .ok ⟨directory⟩
  | none =>
    match (given? environment "HOME").or accountHome with
    | some home => .ok ⟨PathName.join home ".0n"⟩
    | none => .error (.user .noHome)

def inside (store : Store) (path : String) : String := PathName.join store.directory path

def settingsFile (store : Store) : String := store.inside "config.json"

def kindDirectory (store : Store) (kind : Kind) : String := store.inside kind.directory

def isThere (store : Store) (fs : FileSystem) : Bool := fs.isDirectory store.directory

/-- The directories of a store, its own first. -/
def layout (store : Store) : List String :=
  store.directory :: subdirectories.map store.inside

/-- What had to be done for a store to exist. -/
structure Establishment where
  created : List String := []
  existing : List String := []
  config : Option String := none
deriving DecidableEq, Repr

def provideAll : Establishment → List String → Disk Establishment
  | done, [] => pure done
  | done, directory :: rest => do
    if ← Disk.provideDirectory directory then
      provideAll { done with created := done.created ++ [directory] } rest
    else provideAll { done with existing := done.existing ++ [directory] } rest

def defaultConfig (now : String) : Json :=
  Document.create .config { name := some "Global Config" } now

/-- Make the directories and the settings file of a store.  What is there already
    stays as it is. -/
def establish (now : String) (store : Store) : Disk Establishment := do
  let done ← provideAll {} store.layout
  if (← get).isThere store.settingsFile then pure done
  else
    Disk.writeValue store.settingsFile (defaultConfig now)
    pure { done with config := some store.settingsFile }

def settings (store : Store) : Disk Settings := Settings.load store.settingsFile

structure Listed where
  file : String
  path : String
  document : Parsed
deriving DecidableEq, Repr

/-- The record as a value: where the document is, then the document. -/
def Listed.toJson (listed : Listed) : Json :=
  .obj ([("file", .str listed.file), ("path", .str listed.path)] ++ listed.document.fields)

/-- The names of the document files among the entries of the directory at a path,
    in order. -/
def documentNames (directory : String) (entries : Fields Node) : List String :=
  let isReachableFile : String × Node → Bool
    | (name, .file _) =>
      Document.isFileName name && !FileSystem.tooLong (PathName.join directory name)
    | (_, .directory _) => false
  ((entries.filter isReachableFile).map Prod.fst).mergeSort (· ≤ ·)

def parseAll (directory : String) : List String → Disk (List Listed)
  | [] => pure []
  | name :: rest => do
    let path := PathName.join directory name
    let document ← Document.parseFile path
    return ⟨name, path, document⟩ :: (← parseAll directory rest)

/-- The documents of a kind, in the order of their names.  A file that is not a
    valid document fails the list; a directory that is missing gives none. -/
def list (store : Store) (kind : Kind) : Disk (List Listed) := do
  let directory := store.kindDirectory kind
  if (← get).isDirectory directory then
    let entries ← Disk.query .readDirectory directory fun fs => fs.entries directory
    parseAll directory (documentNames directory entries)
  else pure []

end Store
end FlowDocs
