/-
  FlowDocs/FileSystem/OsError.lean
  ================================
  **Why the file system refuses.**

  The causes that a tree of directories and regular files can give, each with the
  wording and the number under which it is reported.
-/

namespace FlowDocs

/-- Why the file system refuses an operation. -/
inductive OsError where
  | notFound
  | busy
  | exists
  | notDirectory
  | isDirectory
  | invalidArgument
  | nameTooLong
  | directoryNotEmpty
  | notUtf8
  | nulInPath
deriving DecidableEq, Repr

def OsError.message : OsError → String
  | .notFound => "No such file or directory (os error 2)"
  | .busy => "Device or resource busy (os error 16)"
  | .exists => "File exists (os error 17)"
  | .notDirectory => "Not a directory (os error 20)"
  | .isDirectory => "Is a directory (os error 21)"
  | .invalidArgument => "Invalid argument (os error 22)"
  | .nameTooLong => "File name too long (os error 36)"
  | .directoryNotEmpty => "Directory not empty (os error 39)"
  | .notUtf8 => "stream did not contain valid UTF-8"
  | .nulInPath => "file name contained an unexpected NUL byte"

end FlowDocs
