/-
  FlowDocs/Settings.lean
  ======================
  **The user's settings.**

  Settings live in the `settings` object of a config document.  `ofDocument` is
  lenient: a field that is absent or of the wrong kind takes its default.
  `decode` is strict about kinds, ignores fields it does not know, and also
  accepts the values alone, in the order of the fields.
-/
import FlowDocs.Json.Shape
import FlowDocs.Document.Kind

namespace FlowDocs

structure Settings where
  aiProvider : String := "anthropic"
  fallbackMode : String := "keyword"
  historyEnabled : Bool := true
  cacheEnabled : Bool := true
deriving DecidableEq, Repr

namespace Settings

def toJson (settings : Settings) : Json :=
  .obj [("ai_provider", .str settings.aiProvider),
    ("fallback_mode", .str settings.fallbackMode),
    ("history_enabled", .bool settings.historyEnabled),
    ("cache_enabled", .bool settings.cacheEnabled)]

/-- The settings of an object, each field for itself. -/
def ofFields (fields : Json.Object) : Settings :=
  let text (key default : String) : String :=
    ((Fields.get? fields key).bind Json.text?).getD default
  let flag (key : String) (default : Bool) : Bool :=
    ((Fields.get? fields key).bind Json.bool?).getD default
  let defaults : Settings := {}
  ⟨text "ai_provider" defaults.aiProvider, text "fallback_mode" defaults.fallbackMode,
    flag "history_enabled" defaults.historyEnabled, flag "cache_enabled" defaults.cacheEnabled⟩

/-- The settings of a document; the defaults if it has no settings object. -/
def ofDocument (document : Json) : Settings :=
  match (document.field? "settings").bind Json.fields? with
  | some fields => ofFields fields
  | none => {}

def isConfig (document : Json) : Bool :=
  ((document.field? envelopeName).bind fun envelope => envelope.field? "type") ==
    some (.str Kind.config.name)

/-- Read fields one after another into the settings so far. -/
def decodeFields : Settings → List (String × Json) → Except Json.ShapeError Settings
  | settings, [] => .ok settings
  | settings, (name, value) :: rest =>
    if name = "ai_provider" then
      match Json.asString value with
      | .error e => .error e
      | .ok text => decodeFields { settings with aiProvider := text } rest
    else if name = "fallback_mode" then
      match Json.asString value with
      | .error e => .error e
      | .ok text => decodeFields { settings with fallbackMode := text } rest
    else if name = "history_enabled" then
      match Json.asBool value with
      | .error e => .error e
      | .ok flag => decodeFields { settings with historyEnabled := flag } rest
    else if name = "cache_enabled" then
      match Json.asBool value with
      | .error e => .error e
      | .ok flag => decodeFields { settings with cacheEnabled := flag } rest
    else decodeFields settings rest

/-- Read the values of the fields in their order; those left out keep their
    defaults, and there are no more than four. -/
def decodeItems (items : List Json) : Except Json.ShapeError Settings :=
  let names := ["ai_provider", "fallback_mode", "history_enabled", "cache_enabled"]
  match decodeFields {} (names.zip items) with
  | .error e => .error e
  | .ok settings =>
    if names.length < items.length then .error (.surplus items.length) else .ok settings

def decode (value : Json) : Except Json.ShapeError Settings :=
  match value with
  | .obj fields => decodeFields {} fields
  | .arr items => decodeItems items
  | other => .error (.mismatch other (.record "Settings"))

end Settings
end FlowDocs
