/-
  FlowDocs/Command/World.lean
  ===========================
  **The part of the world that concerns a command.**

  The system keeps the environment, the accounts and the user's number in texts of
  its own; they are read here.  A command looks only at some paths: its footprint
  says which, and how much of each.
-/
import FlowDocs.Command.Execution

namespace FlowDocs

/-! ### Texts of the system -/

/-- The variables of an environment block: entries `NAME=value`, each closed by a
    NUL.  An equals sign at the start of an entry belongs to the name. -/
def Variables.ofBlock (block : String) : Variables :=
  let entry? : List Char → Option (String × String)
    | [] => none
    | c :: rest =>
      match rest.dropWhile (· ≠ '=') with
      | [] => none
      | _ :: value => some (String.ofList (c :: rest.takeWhile (· ≠ '=')), String.ofList value)
  .ofPairs ((Text.cutAt '\x00' block.toList).filterMap entry?)

/-- The number of the user in the status of a process: the first after `Uid:`. -/
def userNumber? (status : String) : Option String :=
  (Text.cutAt '\n' status.toList).findSome? fun line =>
    match Text.cutAt '\t' line with
    | ['U', 'i', 'd', ':'] :: number :: _ => some (String.ofList number)
    | _ => none

/-- The home directory of a user in the list of accounts, whose lines have seven
    fields between colons: the number is the third, the home directory the sixth. -/
def accountHome? (accounts number : String) : Option String :=
  (Text.cutAt '\n' accounts.toList).findSome? fun line =>
    match (Text.cutAt ':' line).map String.ofList with
    | [_, _, user, _, _, home, _] => if user = number then some home else none
    | _ => none

/-! ### Footprints -/

/-- How much of a path a command looks at. -/
inductive Extent where
  /-- The file or directory itself. -/
  | entry
  /-- All documents below it. -/
  | documents
deriving DecidableEq, Repr

/-- The paths at which a file is written. -/
def writeFootprint (path : String) : List (String × Extent) :=
  (path, .entry) :: (Disk.temporaryFor? path).toList.map fun temporary => (temporary, .entry)

/-- The paths that a command looks at. -/
def Command.footprint (surroundings : Surroundings) (command : Command) :
    List (String × Extent) :=
  let store? := (Store.locate surroundings.environment surroundings.accountHome).toOption
  match command with
  | .validate path => [(path, .documents)]
  | .test directory => [(directory, .documents)]
  | .init =>
    match store? with
    | none => []
    | some store =>
      store.layout.map (fun path => (path, .entry)) ++ writeFootprint store.settingsFile
  | .create request => (request.output.map writeFootprint).getD []
  | .list kind =>
    match store?, Kind.ofName? kind with
    | some store, some kind => [(store.kindDirectory kind, .documents)]
    | _, _ => []
  | .resolve request => [(request.file, .entry)]

end FlowDocs
