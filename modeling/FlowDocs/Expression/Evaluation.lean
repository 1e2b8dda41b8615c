/-
  FlowDocs/Expression/Evaluation.lean
  ===================================
  **The value of an expression.**

  The text is trimmed, cut into tokens, its references are resolved from left to
  right and the chain is reduced.  A text without any token stands for itself.
  Two frequent forms are answered without cutting: the name of a builtin and a
  single reference.  Evaluation never fails; what cannot be computed is undefined.
-/
import FlowDocs.Expression.Lexeme
import FlowDocs.Expression.Reduction
import FlowDocs.Lookup.Reference

namespace FlowDocs

namespace Token

def resolve (answers : Answers) (context : Context) : Token → Item
  | .literal value => .operand (some value)
  | .reference path => .operand (Lookup.reference answers context path)
  | .operator op => .operator op

/-- The items of the tokens.  Every token asks the world for itself. -/
def resolveAll (supply : Supply) (context : Context) : List Token → List Item
  | [] => []
  | token :: rest =>
    token.resolve supply.left.here context :: resolveAll supply.right context rest

end Token

def evaluateChain (supply : Supply) (context : Context) (tokens : List Token) : Option Json :=
  match Token.resolveAll supply context tokens with
  | [.operand value] => value
  | items => reduce items

/-- Whether a character lies in one of the ranges, both ends included. -/
def inRanges (ranges : List (Char × Char)) (c : Char) : Bool :=
  ranges.any fun range => decide (range.1 ≤ c) && decide (c ≤ range.2)

/-- The characters a single reference starts with. -/
def singleReferenceStart : List (Char × Char) := [('a', 'z'), ('A', 'Z'), ('_', '_'), ('$', '$')]

/-- The characters a single reference goes on with. -/
def singleReferenceRest : List (Char × Char) :=
  [('a', 'z'), ('A', 'Z'), ('0', '9'), ('_', '_'), ('.', '.'), ('$', '$'), ('[', '['), (']', ']')]

/-- Whether a text is one reference: it has the characters of one and is not the
    name of a value. -/
def isSingleReference : List Char → Bool
  | [] => false
  | c :: rest =>
    inRanges singleReferenceStart c && rest.all (inRanges singleReferenceRest) &&
      decide ((c :: rest) ∉ ["true".toList, "false".toList, "null".toList])

def evaluate (supply : Supply) (context : Context) (text : List Char) : Option Json :=
  let trimmed := Text.trim text
  let answers := supply.left.here
  match Builtin.ofName? (String.ofList trimmed) with
  | some builtin => some (builtin.value answers)
  | none =>
    if isSingleReference trimmed then Lookup.reference answers context (String.ofList trimmed)
    else
      match tokenize trimmed with
      | [] => some (.str (String.ofList trimmed))
      | tokens => evaluateChain supply context tokens

end FlowDocs
