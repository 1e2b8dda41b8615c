/-
  FlowDocs/Document/Kind.lean
  ===========================
  **The five kinds of document.**

  A document names its kind in its envelope, the object under `$0n`.  Every kind
  has a directory of its own in a store.
-/

namespace FlowDocs

inductive Kind where
  | connection
  | workflow
  | snapshot
  | config
  | execution
deriving DecidableEq, Repr

namespace Kind

def all : List Kind := [.connection, .workflow, .snapshot, .config, .execution]

/-- The name a document gives its kind. -/
def name : Kind → String
  | .connection => "connection"
  | .workflow => "workflow"
  | .snapshot => "snapshot"
  | .config => "config"
  | .execution => "execution"

def ofName? (name : String) : Option Kind := all.find? fun kind => kind.name = name

def directory (kind : Kind) : String := kind.name ++ "s"

theorem ofName?_name (kind : Kind) : ofName? kind.name = some kind := by
  cases kind <;> decide

end Kind

/-- The name of the envelope in a document. -/
def envelopeName : String := "$0n"

end FlowDocs
