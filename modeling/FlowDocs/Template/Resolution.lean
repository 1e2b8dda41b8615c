/-
  FlowDocs/Template/Resolution.lean
  =================================
  **Replacing the placeholders of a template.**

  A template is any JSON value.  A string that is one placeholder becomes the
  value of its expression, of whatever kind; any other string stays a string, with
  the text of each value in the place of its placeholder.  Arrays and objects are
  rebuilt around their parts, the names of fields included.  Text that has been put
  in is not looked at again.
-/
import FlowDocs.Expression.Evaluation
import FlowDocs.Template.Placeholder

namespace FlowDocs.Template

/-- The text of a value inside a string: nothing for undefined and `null`, a string
    as it is, anything else in compact form. -/
def displayText : Option Json → List Char
  | none => []
  | some .null => []
  | some (.str text) => text.toList
  | some value => value.compactText

def display (value : Option Json) : String := String.ofList (displayText value)

/-- The text of the pieces, each placeholder replaced by the text of its value. -/
def render (supply : Supply) (context : Context) : List Piece → List Char
  | [] => []
  | .char c :: rest => c :: render supply context rest
  | .placeholder e :: rest =>
    displayText (evaluate supply.left context e) ++ render supply.right context rest

/-- The value of a template string.  It is undefined only if the string is one
    placeholder whose expression is. -/
def resolveText (supply : Supply) (context : Context) (text : String) : Option Json :=
  match single? text.toList with
  | some e => evaluate supply context e
  | none =>
    if holdsPlaceholder text.toList then
      some (.str (String.ofList (render supply context (pieces text.toList))))
    else some (.str text)

/-- The name a field has after resolution; a value that is no string gives its
    text. -/
def resolveName (supply : Supply) (context : Context) (name : String) : String :=
  display (resolveText supply context name)

mutual

/-- The value of a template.  Undefined becomes `null`. -/
def resolve (supply : Supply) (context : Context) : Json → Json
  | .str text => (resolveText supply context text).getD .null
  | .arr items => .arr (resolveItems supply context items)
  | .obj fields => .obj (Fields.ofEntries (resolveEntries supply context fields))
  | .null => .null
  | .bool value => .bool value
  | .num value => .num value

def resolveItems (supply : Supply) (context : Context) : List Json → List Json
  | [] => []
  | item :: rest => resolve supply.left context item :: resolveItems supply.right context rest

/-- The resolved names and values of the fields of an object, repeated names
    included. -/
def resolveEntries (supply : Supply) (context : Context) :
    List (String × Json) → List (String × Json)
  | [] => []
  | (name, value) :: rest =>
    (resolveName supply.left.left context name, resolve supply.left.right context value) ::
      resolveEntries supply.right context rest

end

end FlowDocs.Template
