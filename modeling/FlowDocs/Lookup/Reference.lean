/-
  FlowDocs/Lookup/Reference.lean
  ==============================
  **What a reference stands for.**

  The world is asked first, by the two exact names `now` and `uuid`.  Then the
  front of the path decides: `env.` and `inputs.` look into their part alone; any
  other path looks among the step outputs, so that a step's id needs no prefix,
  and where they have nothing, into the context as a whole.
-/
import FlowDocs.Answers
import FlowDocs.Context
import FlowDocs.Lookup.Path

namespace FlowDocs

/-- A name that asks the world. -/
inductive Builtin where
  | now
  | uuid
deriving DecidableEq, Repr

namespace Builtin

def ofName? (name : String) : Option Builtin :=
  if name = "now" then some .now
  else if name = "uuid" then some .uuid
  else none

def value (answers : Answers) : Builtin → Json
  | .now => .str answers.now
  | .uuid => .str answers.uuid

end Builtin

namespace Lookup

/-- What stands after a front, if the text starts with it. -/
def stripFront? : List Char → List Char → Option (List Char)
  | [], cs => some cs
  | _ :: _, [] => none
  | p :: ps, c :: cs => if c = p then stripFront? ps cs else none

/-- The variable that segments name: variables hold text and have nothing inside,
    so only a single segment names one. -/
def variableAt? (env : Variables) : List String → Option Json
  | [name] => (Fields.get? env name).map .str
  | _ => none

/-- What segments name in a part of the context: the whole part if there are none. -/
def inPart (fields : Json.Object) : List String → Option Json
  | [] => some (.obj fields)
  | name :: rest => descendFields fields (name :: rest)

def inEnv (env : Variables) : List String → Option Json
  | [] => some env.toJson
  | name :: rest => variableAt? env (name :: rest)

/-- What a path names in the context as a whole: its first segment is the name of a
    part, or of an extra field. -/
def inContext (context : Context) (path : String) : Option Json :=
  if path = "" then none
  else
    match segments path with
    | [] => none
    | first :: rest =>
      if first = "inputs" then inPart context.inputs rest
      else if first = "steps" then inPart context.steps rest
      else if first = "env" then inEnv context.env rest
      else descendFields context.extra (first :: rest)

/-- What a path without a builtin's name stands for. -/
def path? (context : Context) (path : String) : Option Json :=
  match stripFront? "env.".toList path.toList with
  | some rest =>
    if rest = [] then none else variableAt? context.env (segments (String.ofList rest))
  | none =>
    match stripFront? "inputs.".toList path.toList with
    | some rest => inFields context.inputs (String.ofList rest)
    | none =>
      match inFields context.steps path with
      | some value => some value
      | none => inContext context path

def reference (answers : Answers) (context : Context) (path : String) : Option Json :=
  match Builtin.ofName? path with
  | some builtin => some (builtin.value answers)
  | none => path? context path

end Lookup
end FlowDocs
