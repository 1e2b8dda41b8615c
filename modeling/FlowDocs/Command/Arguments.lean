/-
  FlowDocs/Command/Arguments.lean
  ===============================
  **Reading the arguments of a command.**

  A command has options that take a value and positional values, each with a slot.
  Arguments are read from left to right.  A value is first held back and only
  accepted when the next option, positional value or the end comes, so a fault in
  it shows before anything that stands behind it.  Every command also counts `-v`
  and answers `-h` and `-V`; those two stop the reading at once.
-/

namespace FlowDocs

/-- Why there is nothing to run: the user asked for help or the version, or made a
    mistake. -/
inductive Usage where
  | help
  | version
  | mistake
deriving DecidableEq, Repr

def Usage.exitCode : Usage → Nat
  | .help | .version => 0
  | .mistake => 2

/-- What takes a value of the command line. -/
structure Slot where
  name : String
  letter : Option Char := none
  /-- Whether the option may be given more than once. -/
  repeatable : Bool := false
  /-- Whether the value may be empty. -/
  acceptsEmpty : Bool := true
deriving DecidableEq, Repr

structure Signature where
  options : List Slot := []
  positionals : List Slot := []
deriving DecidableEq, Repr

/-- What has been read so far. -/
structure Reading where
  /-- How often `-v` was given. -/
  verbose : Nat := 0
  /-- The accepted values with the names of their slots, in order. -/
  values : List (String × String) := []
  positionals : List Slot := []
  /-- The slot whose value has not been accepted yet, and the value if it has been
      read. -/
  pending : Option (Slot × Option String) := none
deriving Repr

namespace Reading

/-- The most that `-v` is counted. -/
def maxVerbose : Nat := 255

/-- Accept the value held back.  There must be one, it must not be empty where that
    is refused, and only a repeatable slot takes a second. -/
def settle (reading : Reading) : Except Usage Reading :=
  match reading.pending with
  | none => .ok reading
  | some (_, none) => .error .mistake
  | some (slot, some value) =>
    if value = "" && !slot.acceptsEmpty then .error .mistake
    else if !slot.repeatable && reading.values.any (fun entry => entry.1 = slot.name) then
      .error .mistake
    else
      .ok { reading with values := reading.values ++ [(slot.name, value)], pending := none }

/-- Hold a slot back, with its value if that was attached. -/
def hold (reading : Reading) (slot : Slot) (value : Option String) : Except Usage Reading :=
  match reading.settle with
  | .error usage => .error usage
  | .ok reading => .ok { reading with pending := some (slot, value) }

/-- Take an option whose value is attached: it is accepted at once. -/
def attach (reading : Reading) (slot : Slot) (value : String) : Except Usage Reading :=
  match reading.hold slot (some value) with
  | .error usage => .error usage
  | .ok reading => reading.settle

def count (reading : Reading) : Except Usage Reading :=
  match reading.settle with
  | .error usage => .error usage
  | .ok reading => .ok { reading with verbose := min maxVerbose (reading.verbose + 1) }

/-- Stop with an answer, if what was read before has no fault. -/
def answer (reading : Reading) (usage : Usage) : Except Usage Reading :=
  match reading.settle with
  | .error fault => .error fault
  | .ok _ => .error usage

def positional (reading : Reading) (value : String) : Except Usage Reading :=
  match reading.positionals with
  | [] => .error .mistake
  | slot :: rest =>
    match reading.hold slot (some value) with
    | .error usage => .error usage
    | .ok reading => .ok { reading with positionals := rest }

/-- Read a long option, given the text after its two dashes. -/
def long (signature : Signature) (reading : Reading) (text : List Char) : Except Usage Reading :=
  let name := String.ofList (text.takeWhile (· ≠ '='))
  match text.dropWhile (· ≠ '=') with
  | [] =>
    if name = "verbose" then reading.count
    else if name = "help" then reading.answer .help
    else if name = "version" then reading.answer .version
    else
      match signature.options.find? (fun slot => slot.name = name) with
      | none => .error .mistake
      | some slot => reading.hold slot none
  | _ :: value =>
    match signature.options.find? (fun slot => slot.name = name) with
    | none => .error .mistake
    | some slot => reading.attach slot (String.ofList value)

/-- Read the letters after a single dash.  The letter of an option takes the rest as
    its value, an equals sign in front of it left out. -/
def letters (signature : Signature) (reading : Reading) : List Char → Except Usage Reading
  | [] => .ok reading
  | c :: rest =>
    if c = 'v' then
      match reading.count with
      | .error usage => .error usage
      | .ok reading => letters signature reading rest
    else if c = 'h' then reading.answer .help
    else if c = 'V' then reading.answer .version
    else
      match signature.options.find? (fun slot => slot.letter = some c) with
      | none => .error .mistake
      | some slot =>
        match rest with
        | [] => reading.hold slot none
        | '=' :: value => reading.attach slot (String.ofList value)
        | value => reading.attach slot (String.ofList value)

/-- Read an argument that is no option: the value of the option before it, or a
    positional value. -/
def plain (reading : Reading) (argument : String) : Except Usage Reading :=
  match reading.pending with
  | some (slot, none) => .ok { reading with pending := some (slot, some argument) }
  | _ => reading.positional argument

def argument (signature : Signature) (reading : Reading) (argument : String) :
    Except Usage Reading :=
  match argument.toList with
  | '-' :: '-' :: text => reading.long signature text
  | ['-'] => reading.plain argument
  | '-' :: text => reading.letters signature text
  | _ => reading.plain argument

def positionalAll : Reading → List String → Except Usage Reading
  | reading, [] => reading.settle
  | reading, value :: rest =>
    match reading.positional value with
    | .error usage => .error usage
    | .ok reading => positionalAll reading rest

/-- Read the arguments of a command.  After `--` all are positional. -/
def all (signature : Signature) : Reading → List String → Except Usage Reading
  | reading, [] => reading.settle
  | reading, text :: rest =>
    if text = "--" then reading.positionalAll rest
    else
      match reading.argument signature text with
      | .error usage => .error usage
      | .ok reading => all signature reading rest

def ofArguments (signature : Signature) (arguments : List String) : Except Usage Reading :=
  all signature { positionals := signature.positionals } arguments

def value? (reading : Reading) (name : String) : Option String := reading.values.lookup name

def valuesOf (reading : Reading) (name : String) : List String :=
  reading.values.filterMap fun entry => if entry.1 = name then some entry.2 else none

end Reading
end FlowDocs
