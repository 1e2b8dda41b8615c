/-
  FlowDocs/Command/Invocation.lean
  ================================
  **What the command line asks for.**

  The first word names one of six commands; the rest belongs to the command.
  `help` in place of a command answers with help for the program or for the one
  command named after it.
-/
import FlowDocs.Command.Arguments

namespace FlowDocs

/-- What is asked for when a new document is created. -/
structure CreateRequest where
  kind : String
  name : Option String := none
  description : Option String := none
  service : Option String := none
  /-- The file to write to instead of printing. -/
  output : Option String := none
deriving DecidableEq, Repr

/-- What is asked for when a template is resolved. -/
structure ResolveRequest where
  file : String
  /-- The text of an object. -/
  inputs : Option String := none
  /-- Single inputs, written as `key=value`. -/
  pairs : List String := []
  /-- The text of an object. -/
  steps : Option String := none
deriving DecidableEq, Repr

inductive Command where
  | validate (path : String)
  | test (directory : String)
  | init
  | create (request : CreateRequest)
  | list (kind : String)
  | resolve (request : ResolveRequest)
deriving DecidableEq, Repr

def Command.name : Command → String
  | .validate _ => "validate"
  | .test _ => "test"
  | .init => "init"
  | .create _ => "create"
  | .list _ => "list"
  | .resolve _ => "resolve"

/-- A command, and how much the program is to tell about its work. -/
structure Invocation where
  verbose : Nat
  command : Command
deriving DecidableEq, Repr

namespace Command

/-- The directory that is tested when none is named. -/
def defaultTestDirectory : String := "conformance"

/-- What the command of a name takes. -/
def signature? (name : String) : Option Signature :=
  if name = "validate" then some { positionals := [{ name := "path", acceptsEmpty := false }] }
  else if name = "test" then some { positionals := [{ name := "dir", acceptsEmpty := false }] }
  else if name = "init" then some {}
  else if name = "create" then
    some
      { options :=
          [{ name := "name" }, { name := "description" }, { name := "service" },
           { name := "output", letter := some 'o', acceptsEmpty := false }]
        positionals := [{ name := "doc_type" }] }
  else if name = "list" then some { positionals := [{ name := "doc_type" }] }
  else if name = "resolve" then
    some
      { options :=
          [{ name := "inputs" }, { name := "input", repeatable := true }, { name := "steps" }]
        positionals := [{ name := "file", acceptsEmpty := false }] }
  else none

/-- The command of a name with the values that were read for it; none if a value it
    needs is missing. -/
def ofReading? (name : String) (reading : Reading) : Option Command :=
  if name = "validate" then (reading.value? "path").map .validate
  else if name = "test" then some (.test ((reading.value? "dir").getD defaultTestDirectory))
  else if name = "init" then some .init
  else if name = "create" then
    (reading.value? "doc_type").map fun kind =>
      .create
        { kind := kind
          name := reading.value? "name"
          description := reading.value? "description"
          service := reading.value? "service"
          output := reading.value? "output" }
  else if name = "list" then (reading.value? "doc_type").map .list
  else if name = "resolve" then
    (reading.value? "file").map fun file =>
      .resolve
        { file := file
          inputs := reading.value? "inputs"
          pairs := reading.valuesOf "input"
          steps := reading.value? "steps" }
  else none

end Command

namespace Invocation

/-- The answer to `help` with the words after it. -/
def helpOn : List String → Usage
  | [] => .help
  | [name] => if name = "help" || (Command.signature? name).isSome then .help else .mistake
  | _ => .mistake

/-- Read the command of a name and what follows it.  A count of `-v` in front of the
    name gives way to one behind it. -/
def ofCommand (verbose : Nat) (name : String) (arguments : List String) :
    Except Usage Invocation :=
  match Command.signature? name with
  | none => .error .mistake
  | some signature =>
    match Reading.ofArguments signature arguments with
    | .error usage => .error usage
    | .ok reading =>
      match Command.ofReading? name reading with
      | none => .error .mistake
      | some command =>
        .ok ⟨if reading.verbose = 0 then verbose else reading.verbose, command⟩

/-- Read the command line up to the name of the command. -/
def read : Reading → List String → Except Usage Invocation
  | _, [] => .error .mistake
  | reading, argument :: rest =>
    match argument.toList with
    | '-' :: _ :: _ =>
      if argument = "--" then .error .mistake
      else
        match reading.argument {} argument with
        | .error usage => .error usage
        | .ok reading => read reading rest
    | _ =>
      if argument = "help" then .error (helpOn rest)
      else ofCommand reading.verbose argument rest

def ofArguments (arguments : List String) : Except Usage Invocation := read {} arguments

example : ofArguments ["-vv", "create", "config", "-oout", "--name", "n"] =
    .ok ⟨2, .create { kind := "config", name := some "n", output := some "out" }⟩ := by cbv
example : ofArguments ["validate", "--", "-x"] = .ok ⟨0, .validate "-x"⟩ := by cbv
example : ofArguments ["create", "config", "--name", "-v"] = .error .mistake := by cbv
example : ofArguments ["validate", "a", "--help"] = .error .help := by cbv
example : ofArguments ["validate", "", "--help"] = .error .mistake := by cbv

end Invocation
end FlowDocs
