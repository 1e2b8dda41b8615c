/-
  FlowDocs/FileSystem/PathName.lean
  =================================
  **The names of files and directories.**

  A path is a text with slashes.  It starts at the root, at the working directory
  named by a leading `.`, or plainly at its first segment.  The file system walks
  its steps; the rest of this module works on the text alone: the last name of a
  path, the path above it, and joining two paths.  There an empty segment and a
  `.` beyond the start do not count.
-/
import FlowDocs.Text.Cut

namespace FlowDocs

inductive PathStart where
  | root
  | here
  | plain
deriving DecidableEq, Repr

/-- A path, cut at its slashes. -/
structure PathName where
  start : PathStart
  segments : List String
deriving DecidableEq, Repr

namespace PathName

def ofText (text : String) : PathName :=
  match (Text.cutAt '/' text.toList).map String.ofList with
  | "" :: first :: rest => ⟨.root, first :: rest⟩
  | "." :: rest => ⟨.here, rest⟩
  | segments => ⟨.plain, segments⟩

/-- Segments with a slash between each two. -/
def joinSegments (segments : List String) : String :=
  String.ofList (Text.joinWith '/' (segments.map String.toList))

def toText (path : PathName) : String :=
  match path.start, path.segments with
  | .root, segments => "/" ++ joinSegments segments
  | .here, [] => "."
  | .here, segments => "./" ++ joinSegments segments
  | .plain, segments => joinSegments segments

def isAbsolute (path : PathName) : Bool := path.start = .root

def isName (segment : String) : Bool := segment ≠ "" && segment ≠ "."

/-- The segments from the last name backwards. -/
def backwards (segments : List String) : List String :=
  segments.reverse.dropWhile fun segment => !isName segment

/-- The steps the file system takes; a step `.` stays where it is. -/
def steps (path : PathName) : List String := path.segments.filter (· ≠ "")

/-- Whether the text ends in a slash, which asks for a directory. -/
def wantsDirectory (path : PathName) : Bool := path.segments.getLast? = some ""

def startsAtRoot (text : String) : Bool := text.toList.head? = some '/'

def endsInSlash (text : String) : Bool := text.toList.getLast? = some '/'

/-- A path below another; an absolute path stands for itself. -/
def join (base path : String) : String :=
  if startsAtRoot path then path
  else if base = "" || endsInSlash base then base ++ path
  else base ++ "/" ++ path

/-- The last name of a path.  The root, the empty path and a path whose last name
    is `..` have none. -/
def fileName? (text : String) : Option String :=
  match backwards (ofText text).segments with
  | last :: _ => if last = ".." then none else some last
  | [] => none

/-- The path above a path; above a single name it is empty. -/
def parent? (text : String) : Option String :=
  let path := ofText text
  match backwards path.segments with
  | _ :: above => some (toText ⟨path.start, (backwards above.reverse).reverse⟩)
  | [] => if path.start = .here then some "" else none

/-- The paths to the names of a path, the whole path first and the place it starts
    from last; `reversed` holds the segments backwards. -/
def upwards (start : PathStart) (reversed : List String) : List String :=
  match reversed with
  | [] =>
    match start with
    | .root => ["/"]
    | .here => ["."]
    | .plain => []
  | segment :: above =>
    if isName segment then toText ⟨start, (segment :: above).reverse⟩ :: upwards start above
    else upwards start above

/-- A path and the paths above it, as long as they are not empty. -/
def ancestors (text : String) : List String :=
  let path := ofText text
  match upwards path.start path.segments.reverse with
  | [] => []
  | _ :: above => text :: above

/-- The path from the root.  Segments that do not count are left out, `..` is kept,
    and so is a slash at the end.  Two slashes at the start, but no more, are kept
    too. -/
def absolute (workingDirectory text : String) : String :=
  let path := ofText text
  let base :=
    if path.isAbsolute then
      match text.toList with
      | '/' :: '/' :: '/' :: _ => "/"
      | '/' :: '/' :: _ => "//"
      | _ => "/"
    else workingDirectory
  let full := (path.segments.filter isName).foldl join base
  if endsInSlash text then join full "" else full

/-- The path from the root along the given names. -/
def ofLocation (names : List String) : String := "/" ++ joinSegments names

example : parent? "a//b/" = some "a" := by decide +kernel
example : parent? "./a" = some "." := by decide +kernel
example : parent? "/a" = some "/" := by decide +kernel
example : parent? "/" = none := by decide +kernel
example : fileName? "a/b/." = some "b" := by decide +kernel
example : fileName? "a/.." = none := by decide +kernel
example : ancestors "a/./b/c" = ["a/./b/c", "a/./b", "a"] := by decide +kernel
example : absolute "/w" "./a//../b/" = "/w/a/../b/" := by decide +kernel

end PathName
end FlowDocs
