/-
  FlowDocs/Json/Shape.lean
  ========================
  **Values that do not have the shape a record asks for.**

  A record is read from a value strictly: a field of the wrong kind or a missing
  field refuses the whole value.  `ShapeError` is the reason.  The readers of the
  single fields stand here; each record has its own reader beside its type.
-/
import FlowDocs.Json.Writer
import FlowDocs.Text.Quoted

namespace FlowDocs.Json

inductive Expected where
  | string
  | boolean
  | map
  | record (name : String)
deriving DecidableEq, Repr

def Expected.message : Expected → String
  | .string => "a string"
  | .boolean => "a boolean"
  | .map => "a map"
  | .record name => "struct " ++ name

/-- Why a value is not the record asked for. -/
inductive ShapeError where
  | mismatch (found : Json) (expected : Expected)
  | missing (field : String)
  | surplus (length : Nat)
deriving Repr

/-- How a message names a value that was found: scalars by what they hold, arrays
    and objects by their kind. -/
def kindText : Json → String
  | .null => "null"
  | .bool b => "boolean `" ++ String.ofList (boolText b) ++ "`"
  | .num (.integer n) => "integer `" ++ String.ofList (integerText n) ++ "`"
  | .num (.double x) => "floating point `" ++ String.ofList (doubleText x) ++ "`"
  | .str s => "string " ++ Text.quoted s
  | .arr _ => "sequence"
  | .obj _ => "map"

def ShapeError.message : ShapeError → String
  | .mismatch found expected =>
    "invalid type: " ++ kindText found ++ ", expected " ++ expected.message
  | .missing field => "missing field `" ++ field ++ "`"
  | .surplus length =>
    "invalid length " ++ toString length ++ ", expected fewer elements in array"

def asString : Json → Except ShapeError String
  | .str s => .ok s
  | other => .error (.mismatch other .string)

def asBool : Json → Except ShapeError Bool
  | .bool b => .ok b
  | other => .error (.mismatch other .boolean)

def asMap : Json → Except ShapeError Object
  | .obj fields => .ok fields
  | other => .error (.mismatch other .map)

/-- A record of a name, as the fields that were given. -/
def asRecord (name : String) : Json → Except ShapeError Object
  | .obj fields => .ok fields
  | other => .error (.mismatch other (.record name))

end FlowDocs.Json
