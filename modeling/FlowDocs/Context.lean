/-
  FlowDocs/Context.lean
  =====================
  **What an expression can refer to.**

  A context has four parts: the inputs, the outputs of the steps done so far, the
  environment, and whatever else stood at the top level of the document it was
  read from.  `Context.ofJson` accepts any value and keeps what it can use;
  `Context.decode` refuses a value that is not a context; `Context.toJson` writes
  all four parts into one object.
-/
import FlowDocs.Json.Shape

namespace FlowDocs

/-- Environment variables, ascending by name. -/
abbrev Variables := Fields String

namespace Variables

/-- Give a variable a value, keeping the names ascending. -/
def set (env : Variables) (name value : String) : Variables :=
  match env with
  | [] => [(name, value)]
  | (n, v) :: rest =>
    if n = name then (name, value) :: rest
    else if name < n then (name, value) :: (n, v) :: rest
    else (n, v) :: set rest name value

/-- The variables of a sequence of pairs; the last value of a name counts. -/
def ofPairs (pairs : List (String × String)) : Variables :=
  pairs.foldl (fun env pair => env.set pair.1 pair.2) []

def toJson (env : Variables) : Json :=
  .obj (env.map fun entry => (entry.1, .str entry.2))

/-- The entries of an object whose values are strings. -/
def ofFields (fields : Json.Object) : Variables :=
  ofPairs (fields.filterMap fun entry => entry.2.text?.map fun text => (entry.1, text))

end Variables

/-- What an expression can refer to. -/
structure Context where
  inputs : Json.Object := []
  steps : Json.Object := []
  env : Variables := []
  extra : Json.Object := []
deriving DecidableEq, Repr

namespace Context

def empty : Context := {}

/-- Record the output of a step under its id. -/
def recordStep (context : Context) (id : String) (output : Json) : Context :=
  { context with steps := Fields.set context.steps id output }

/-- The fields of a part of a context; a part of any other shape is empty. -/
def part (value? : Option Json) : Json.Object := (value?.bind Json.fields?).getD []

/-- The context in a value.  The parts are taken out of the object one by one, and
    a part of the wrong shape is empty; of the environment only the strings count;
    what is left is extra.  A value that is no object is the empty context. -/
def ofJson (value : Json) : Context :=
  match value with
  | .obj fields =>
    let (inputs, fields) := Fields.extract fields "inputs"
    let (steps, fields) := Fields.extract fields "steps"
    let (env, fields) := Fields.extract fields "env"
    ⟨part inputs, part steps, Variables.ofFields (part env), fields⟩
  | _ => empty

/-- The three parts under their names. -/
def parts (context : Context) : Json.Object :=
  [("inputs", .obj context.inputs), ("steps", .obj context.steps), ("env", context.env.toJson)]

/-- All parts in one object, the extra fields last.  An extra field that has the name
    of a part takes its place. -/
def toJson (context : Context) : Json := .obj (Fields.overlay context.parts context.extra)

/-- The strings of an object; refused when a value is not a string. -/
def decodeVariables : Variables → List (String × Json) → Except Json.ShapeError Variables
  | env, [] => .ok env
  | env, (name, value) :: rest =>
    match Json.asString value with
    | .error e => .error e
    | .ok text => decodeVariables (env.set name text) rest

/-- Read the fields of a context one after another into the context so far. -/
def decodeFields : Context → List (String × Json) → Except Json.ShapeError Context
  | context, [] => .ok context
  | context, (name, value) :: rest =>
    if name = "inputs" then
      match Json.asMap value with
      | .error e => .error e
      | .ok fields => decodeFields { context with inputs := fields } rest
    else if name = "steps" then
      match Json.asMap value with
      | .error e => .error e
      | .ok fields => decodeFields { context with steps := fields } rest
    else if name = "env" then
      match Json.asMap value with
      | .error e => .error e
      | .ok fields =>
        match decodeVariables [] fields with
        | .error e => .error e
        | .ok env => decodeFields { context with env := env } rest
    else decodeFields { context with extra := context.extra ++ [(name, value)] } rest

/-- Read a context strictly: the value is an object, its parts are objects, and the
    environment holds strings.  Parts that are absent are empty. -/
def decode (value : Json) : Except Json.ShapeError Context :=
  match Json.asRecord "Context" value with
  | .error e => .error e
  | .ok fields => decodeFields empty fields

end Context
end FlowDocs
