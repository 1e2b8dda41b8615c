/-
  FlowDocs/Command/Execution.lean
  ===============================
  **Carrying out a command.**

  A command works on a file system, is told about the world around it, and prints
  lines.  When it fails, the lines printed so far and the changes made so far
  stay.
-/
import FlowDocs.Command.Invocation
import FlowDocs.Command.Layout
import FlowDocs.Template.Resolution

namespace FlowDocs

/-- What a command is told about the world. -/
structure Surroundings where
  environment : Variables
  /-- The home directory of the user's account. -/
  accountHome : Option String
  supply : Supply

/-- What a command works on. -/
structure Session where
  fileSystem : FileSystem
  lines : List String := []

/-- Work that prints lines. -/
abbrev Console (α : Type) := ExceptT Failure (StateM Session) α

namespace Console

def print (lines : List String) : Console Unit :=
  modify fun session => { session with lines := session.lines ++ lines }

def onDisk {α : Type} (work : Disk α) : Console α := do
  let session ← get
  let (result, fileSystem) := work.run session.fileSystem
  set { session with fileSystem := fileSystem }
  match result with
  | .ok value => pure value
  | .error failure => throw failure

def require {α : Type} (result : Except Failure α) : Console α :=
  match result with
  | .ok value => pure value
  | .error failure => throw failure

end Console

/-! ### The context of a template -/

namespace ResolveRequest

/-- The object that the text of an option holds; the empty one if the option was not
    given. -/
def objectOf (option : String) (text : Option String) : Except Failure Json.Object :=
  match text with
  | none => .ok []
  | some text =>
    match Json.parse text with
    | .error error => .error (.malformed error)
    | .ok (.obj fields) => .ok fields
    | .ok _ => .error (.user (.notAnObject option))

/-- The value of an input: JSON if the text is JSON, else the text itself. -/
def inputValue (text : String) : Json :=
  match Json.parse text with
  | .ok value => value
  | .error _ => .str text

/-- The name and the value of a single input, split at the first equals sign. -/
def inputPair (text : String) : Except Failure (String × Json) :=
  match text.toList.dropWhile (· ≠ '=') with
  | [] => .error (.user (.inputWithoutValue text))
  | _ :: value =>
    let name := String.ofList (text.toList.takeWhile (· ≠ '='))
    if name = "" then .error (.user (.inputWithoutKey text))
    else .ok (name, inputValue (String.ofList value))

/-- The inputs with single inputs set one after another. -/
def withPairs : Json.Object → List String → Except Failure Json.Object
  | inputs, [] => .ok inputs
  | inputs, pair :: rest =>
    match inputPair pair with
    | .error failure => .error failure
    | .ok (name, value) => withPairs (Fields.set inputs name value) rest

/-- The context that a request describes, without the environment. -/
def context (request : ResolveRequest) : Except Failure Context :=
  match objectOf "inputs" request.inputs with
  | .error failure => .error failure
  | .ok inputs =>
    match withPairs inputs request.pairs with
    | .error failure => .error failure
    | .ok inputs =>
      match objectOf "steps" request.steps with
      | .error failure => .error failure
      | .ok steps => .ok { inputs := inputs, steps := steps }

end ResolveRequest

/-! ### The commands -/

namespace Command

/-- Validate a file, or every document below a directory. -/
def runValidate (path : String) : Console Unit := do
  let fs := (← get).fileSystem
  let path := PathName.absolute (PathName.ofLocation fs.workingDirectory) path
  if !fs.isThere path then throw (.user (.pathNotFound path))
  let reports ←
    if fs.isDirectory path then do
      Console.print [Layout.headline .info ("Validating directory: " ++ path)]
      Console.onDisk (Document.reportsBelow path)
    else pure [Document.fileReport fs path]
  Console.print (Layout.validation reports)
  let invalid := Layout.invalidCount reports
  if 0 < invalid then throw (.rejected (.documents invalid reports.length))

def runTest (directory : String) : Console Unit := do
  Console.print [Layout.headline .info "Running conformance tests..."]
  if (← get).fileSystem.isDirectory directory then
    let reports ← Console.onDisk (Document.reportsBelow directory)
    Console.print (Layout.testRun reports)
    let failed := Layout.invalidCount reports
    if 0 < failed then throw (.rejected (.conformance failed))
  else
    Console.print [Layout.headline .warning ("No conformance directory found at " ++ directory)]

def runInit (surroundings : Surroundings) : Console Unit := do
  let store ← Console.require (Store.locate surroundings.environment surroundings.accountHome)
  let done ← Console.onDisk (store.establish surroundings.supply.here.now)
  Console.print (Layout.establishment done)
  let settings ← Console.onDisk store.settings
  Console.print (Layout.headline .info ("Settings from " ++ store.settingsFile) ::
    Layout.settings settings)
  Console.print (Layout.nextSteps store)

/-- Create a document and print it, or save it to a file. -/
def runCreate (surroundings : Surroundings) (request : CreateRequest) : Console Unit := do
  let kind ← Console.require (Kind.read request.kind)
  let options : CreationOptions :=
    { name := request.name, description := request.description, service := request.service }
  let document := Document.create kind options surroundings.supply.left.here.now
  match request.output with
  | some path =>
    let _ ← Console.onDisk (Document.save surroundings.supply.right.here.now document path)
    Console.print [Layout.headline .success ("Created " ++ path)]
  | none => Console.print [document.pretty]

def runList (surroundings : Surroundings) (kind : String) : Console Unit := do
  let kind ← Console.require (Kind.read kind)
  let store ← Console.require (Store.locate surroundings.environment surroundings.accountHome)
  let documents ← Console.onDisk (store.list kind)
  Console.print (Layout.list store kind documents)

/-- Resolve the template in a file and print the value. -/
def runResolve (surroundings : Surroundings) (request : ResolveRequest) : Console Unit := do
  let template ← Console.onDisk (Document.readValue request.file)
  let context ← Console.require request.context
  let context := { context with env := surroundings.environment }
  Console.print [(Template.resolve surroundings.supply context template).pretty]

def run (surroundings : Surroundings) : Command → Console Unit
  | .validate path => runValidate path
  | .test directory => runTest directory
  | .init => runInit surroundings
  | .create request => runCreate surroundings request
  | .list kind => runList surroundings kind
  | .resolve request => runResolve surroundings request

/-- What a command leaves behind. -/
structure Outcome where
  output : String
  fileSystem : FileSystem
  failure : Option Failure

def execute (surroundings : Surroundings) (fs : FileSystem) (command : Command) : Outcome :=
  let (result, session) := (command.run surroundings).run { fileSystem := fs }
  let failure := match result with
    | .ok () => none
    | .error failure => some failure
  ⟨String.join (session.lines.map (· ++ "\n")), session.fileSystem, failure⟩

def Outcome.exitCode (outcome : Outcome) : Nat :=
  match outcome.failure with
  | none => 0
  | some failure => failure.exitCode

end Command
end FlowDocs
