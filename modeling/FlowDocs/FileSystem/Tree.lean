/-
  FlowDocs/FileSystem/Tree.lean
  =============================
  **Directories and files as a tree.**

  A node is a file with its bytes or a directory with its entries.  The place of a
  node is the list of names that leads to it from the root.
-/
import FlowDocs.Json.Fields

namespace FlowDocs

inductive Node where
  | file (content : ByteArray)
  | directory (entries : List (String × Node))

namespace Node

def isDirectory : Node → Bool
  | .directory _ => true
  | .file _ => false

def at? : Node → List String → Option Node
  | node, [] => some node
  | .directory entries, name :: rest => (Fields.get? entries name).bind fun node => node.at? rest
  | .file _, _ :: _ => none

/-- Put a node at a place below.  Missing directories on the way come into being;
    a file on the way is left as it is. -/
def put (new : Node) : List String → Node → Node
  | [], _ => new
  | name :: rest, .directory entries =>
    let below := (Fields.get? entries name).getD (.directory [])
    .directory (Fields.set entries name (put new rest below))
  | _ :: _, .file content => .file content

def take : List String → Node → Node
  | [name], .directory entries => .directory (Fields.erase entries name)
  | name :: rest, .directory entries =>
    match Fields.get? entries name with
    | some below => .directory (Fields.set entries name (take rest below))
    | none => .directory entries
  | [], node => node
  | _ :: _, .file content => .file content

end Node
end FlowDocs
