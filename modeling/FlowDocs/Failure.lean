/-
  FlowDocs/Failure.lean
  =====================
  **Why an operation failed.**

  Resolution never fails; failures come from documents, files and the command
  line.  Each is a cause with what it concerns.  Its wording and the exit code of
  the program follow from it.
-/
import FlowDocs.Document.Problem

namespace FlowDocs

inductive UserMistake where
  | unknownKind (name : String)
  | pathNotFound (path : String)
  | invalidPath (path : String)
  | notAnObject (option : String)
  | inputWithoutValue (raw : String)
  | inputWithoutKey (raw : String)
  | noHome
  | other (text : String)
deriving DecidableEq, Repr

def UserMistake.message : UserMistake → String
  | .unknownKind name =>
    "unknown document type '" ++ name ++ "' (expected one of: " ++
      ", ".intercalate (Kind.all.map Kind.name) ++ ")"
  | .pathNotFound path => "path not found: " ++ path
  | .invalidPath path => "invalid file path '" ++ path ++ "'"
  | .notAnObject option => "--" ++ option ++ " must be a JSON object"
  | .inputWithoutValue raw => "invalid --input '" ++ raw ++ "': expected KEY=VALUE"
  | .inputWithoutKey raw => "invalid --input '" ++ raw ++ "': key is empty"
  | .noHome =>
    "could not determine the home directory.\n\nSet DOT0N_HOME to choose where the store lives."
  | .other text => text

/-- What was done when the file system or a service refused. -/
inductive Attempt where
  | read
  | readDirectory
  | createDirectory
  | createParent
  | createTemporary
  | replace
  | reach
deriving DecidableEq, Repr

def Attempt.message : Attempt → String
  | .read => "failed to read"
  | .readDirectory => "failed to read directory"
  | .createDirectory => "failed to create directory"
  | .createParent => "failed to create parent directory"
  | .createTemporary => "failed to create temporary file"
  | .replace => "failed to atomically replace"
  | .reach => "failed to reach"

/-- Which documents did not pass. -/
inductive Verdict where
  | documents (invalid total : Nat)
  | conformance (failed : Nat)
  | other (text : String)
deriving DecidableEq, Repr

def Verdict.message : Verdict → String
  | .documents invalid total =>
    toString invalid ++ " of " ++ toString total ++ " documents invalid"
  | .conformance failed => toString failed ++ " conformance test(s) failed"
  | .other text => text

/-- Why an operation failed. -/
inductive Failure where
  | user (mistake : UserMistake)
  | io (attempt : Attempt) (path : String) (cause : OsError)
  | malformed (error : Json.SyntaxError)
  | misshapen (error : Json.ShapeError)
  | invalid (problems : List Problem)
  | rejected (verdict : Verdict)
deriving Repr

namespace Failure

def message : Failure → String
  | .user mistake => mistake.message
  | .io attempt path cause => attempt.message ++ " '" ++ path ++ "': " ++ cause.message
  | .malformed error => "Invalid JSON: " ++ error.message
  | .misshapen error => "Invalid JSON: " ++ error.message
  | .invalid problems =>
    "Invalid .0n file: " ++ ", ".intercalate (problems.map Problem.message)
  | .rejected verdict => "Validation failed: " ++ verdict.message

/-- The exit code of the program: 1 for the user's mistakes, 2 for documents that
    are not valid, 3 for the file system. -/
def exitCode : Failure → Nat
  | .user _ => 1
  | .malformed _ => 1
  | .misshapen _ => 1
  | .invalid _ => 2
  | .rejected _ => 2
  | .io _ _ _ => 3

end Failure

/-- The kind of a name, or the mistake of naming none. -/
def Kind.read (name : String) : Except Failure Kind :=
  match Kind.ofName? name with
  | some kind => .ok kind
  | none => .error (.user (.unknownKind name))

end FlowDocs
