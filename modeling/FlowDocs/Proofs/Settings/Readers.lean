/-
  FlowDocs/Proofs/Settings/Readers.lean
  =====================================
  **The two readers of settings agree field by field.**

  `Settings.ofDocument` looks each field up and takes its default where it finds nothing
  that fits; `Settings.decode` goes through the fields of an object one after another,
  with the defaults to start from, and refuses the first that does not fit.  Both are
  described here by what stands under the four names.  The strict reader accepts exactly
  the objects in which nothing there is of a wrong kind, and then reads what the lenient
  one does.  Hence neither the order of the fields nor unknown ones matter, both readers
  undo the writer, and a change to one field of a settings object is seen in that field
  alone.  No name stands twice in what was read from a file, so settings are loaded from
  it as the strict reader reads them.
-/
import FlowDocs.Store
import FlowDocs.Proofs.Context.Parts
import FlowDocs.Proofs.Document.Saving
import FlowDocs.Proofs.FileSystem.Descent

namespace FlowDocs

/-- The four fields of settings. -/
inductive SettingsField where
  | aiProvider
  | fallbackMode
  | historyEnabled
  | cacheEnabled
deriving DecidableEq, Repr

namespace SettingsField

def name : SettingsField → String
  | .aiProvider => "ai_provider"
  | .fallbackMode => "fallback_mode"
  | .historyEnabled => "history_enabled"
  | .cacheEnabled => "cache_enabled"

/-- What a field asks for. -/
def kind : SettingsField → Json.Expected
  | .aiProvider => .string
  | .fallbackMode => .string
  | .historyEnabled => .boolean
  | .cacheEnabled => .boolean

/-- Whether a value is of the kind that a field asks for. -/
def fits : SettingsField → Json → Bool
  | .aiProvider, value => value.text?.isSome
  | .fallbackMode, value => value.text?.isSome
  | .historyEnabled, value => value.bool?.isSome
  | .cacheEnabled, value => value.bool?.isSome

theorem name_inj {field other : SettingsField} : field.name = other.name ↔ field = other := by
  cases field <;> cases other <;> decide

end SettingsField

theorem Json.isSome_text?_iff {value : Json} :
    value.text?.isSome = true ↔ ∃ text, value = .str text := by
  cases value <;> simp [text?]

theorem Json.isSome_bool?_iff {value : Json} :
    value.bool?.isSome = true ↔ ∃ flag, value = .bool flag := by
  cases value <;> simp [bool?]

namespace Settings

/-- What settings have under a field. -/
def entry (settings : Settings) : SettingsField → Json
  | .aiProvider => .str settings.aiProvider
  | .fallbackMode => .str settings.fallbackMode
  | .historyEnabled => .bool settings.historyEnabled
  | .cacheEnabled => .bool settings.cacheEnabled

/-- Settings with another value under a field; one that does not fit changes nothing. -/
def put (settings : Settings) (field : SettingsField) (value : Json) : Settings :=
  match field with
  | .aiProvider => { settings with aiProvider := value.text?.getD settings.aiProvider }
  | .fallbackMode => { settings with fallbackMode := value.text?.getD settings.fallbackMode }
  | .historyEnabled =>
    { settings with historyEnabled := value.bool?.getD settings.historyEnabled }
  | .cacheEnabled => { settings with cacheEnabled := value.bool?.getD settings.cacheEnabled }

/-- The value of a field for which something or nothing was found: that if it fits, and
    otherwise the default. -/
def orDefault (field : SettingsField) (found : Option Json) : Json :=
  (found.filter field.fits).getD (entry {} field)

theorem eq_iff_entry {settings other : Settings} :
    settings = other ↔ ∀ field, settings.entry field = other.entry field := by
  constructor
  · rintro rfl field
    rfl
  · intro h
    rcases settings with ⟨provider, mode, history, cache⟩
    rcases other with ⟨provider', mode', history', cache'⟩
    simp only [mk.injEq]
    exact ⟨Json.str.inj (h .aiProvider), Json.str.inj (h .fallbackMode),
      Json.bool.inj (h .historyEnabled), Json.bool.inj (h .cacheEnabled)⟩

/-- What fits a field is what settings can have under it. -/
theorem fits_iff {field : SettingsField} {value : Json} :
    field.fits value = true ↔ ∃ settings : Settings, value = settings.entry field := by
  constructor
  · intro h
    cases field with
    | aiProvider =>
      rcases Json.isSome_text?_iff.mp h with ⟨text, rfl⟩
      exact ⟨{ aiProvider := text }, rfl⟩
    | fallbackMode =>
      rcases Json.isSome_text?_iff.mp h with ⟨text, rfl⟩
      exact ⟨{ fallbackMode := text }, rfl⟩
    | historyEnabled =>
      rcases Json.isSome_bool?_iff.mp h with ⟨flag, rfl⟩
      exact ⟨{ historyEnabled := flag }, rfl⟩
    | cacheEnabled =>
      rcases Json.isSome_bool?_iff.mp h with ⟨flag, rfl⟩
      exact ⟨{ cacheEnabled := flag }, rfl⟩
  · rintro ⟨settings, rfl⟩
    cases field <;> rfl

theorem entry_put (settings : Settings) {field : SettingsField} {value : Json}
    (h : field.fits value = true) (other : SettingsField) :
    (settings.put field value).entry other
      = if other = field then value else settings.entry other := by
  rcases fits_iff.mp h with ⟨source, rfl⟩
  cases field <;> cases other <;> rfl

/-! ### The lenient reader -/

theorem str_getD (found : Option Json) (default : String) :
    Json.str ((found.bind Json.text?).getD default)
      = (found.filter fun value => value.text?.isSome).getD (.str default) := by
  cases found with
  | none => rfl
  | some value => cases value <;> rfl

theorem bool_getD (found : Option Json) (default : Bool) :
    Json.bool ((found.bind Json.bool?).getD default)
      = (found.filter fun value => value.bool?.isSome).getD (.bool default) := by
  cases found with
  | none => rfl
  | some value => cases value <;> rfl

theorem entry_ofFields (fields : Json.Object) (field : SettingsField) :
    (ofFields fields).entry field = orDefault field (Fields.get? fields field.name) := by
  cases field with
  | aiProvider => exact str_getD _ _
  | fallbackMode => exact str_getD _ _
  | historyEnabled => exact bool_getD _ _
  | cacheEnabled => exact bool_getD _ _

theorem ofDocument_of_settings {document : Json} {fields : Json.Object}
    (h : document.field? "settings" = some (.obj fields)) :
    ofDocument document = ofFields fields := by
  simp [ofDocument, h, Json.fields?]

/-! ### The strict reader -/

theorem decodeFields_of_fits (settings : Settings) {field : SettingsField} {value : Json}
    (h : field.fits value = true) (rest : List (String × Json)) :
    decodeFields settings ((field.name, value) :: rest)
      = decodeFields (settings.put field value) rest := by
  rcases fits_iff.mp h with ⟨source, rfl⟩
  cases field <;> rfl

theorem asString_of_no_text {value : Json} (h : value.text?.isSome = false) :
    Json.asString value = .error (.mismatch value .string) := by
  cases value with
  | str text => cases h
  | _ => rfl

theorem asBool_of_no_flag {value : Json} (h : value.bool?.isSome = false) :
    Json.asBool value = .error (.mismatch value .boolean) := by
  cases value with
  | bool flag => cases h
  | _ => rfl

/-- A value that does not fit refuses the fields, with the value and what was asked for. -/
theorem decodeFields_of_misfit (settings : Settings) {field : SettingsField} {value : Json}
    (h : field.fits value = false) (rest : List (String × Json)) :
    decodeFields settings ((field.name, value) :: rest) = .error (.mismatch value field.kind) := by
  cases field with
  | aiProvider => simp [decodeFields, SettingsField.name, SettingsField.kind, asString_of_no_text h]
  | fallbackMode =>
    simp [decodeFields, SettingsField.name, SettingsField.kind, asString_of_no_text h]
  | historyEnabled =>
    simp [decodeFields, SettingsField.name, SettingsField.kind, asBool_of_no_flag h]
  | cacheEnabled => simp [decodeFields, SettingsField.name, SettingsField.kind, asBool_of_no_flag h]

theorem decodeFields_unknown (settings : Settings) {name : String}
    (h : ∀ field : SettingsField, name ≠ field.name) (value : Json)
    (rest : List (String × Json)) :
    decodeFields settings ((name, value) :: rest) = decodeFields settings rest := by
  have hprovider : name ≠ "ai_provider" := h .aiProvider
  have hmode : name ≠ "fallback_mode" := h .fallbackMode
  have hhistory : name ≠ "history_enabled" := h .historyEnabled
  have hcache : name ≠ "cache_enabled" := h .cacheEnabled
  rw [decodeFields, if_neg hprovider, if_neg hmode, if_neg hhistory, if_neg hcache]

/-- What reading makes of one field: a value that was found must fit and is taken, and
    without one the field stays as it was. -/
def Takes (field : SettingsField) (found : Option Json) (before after : Settings) : Prop :=
  (∀ value ∈ found, field.fits value = true) ∧ after.entry field = found.getD (before.entry field)

/-- From the defaults on, a field that is read has the value found, or the default. -/
theorem takes_default_iff {field : SettingsField} {found : Option Json} {after : Settings} :
    Takes field found {} after ↔
      (∀ value ∈ found, field.fits value = true) ∧ after.entry field = orDefault field found := by
  refine and_congr_right fun hfits => ?_
  cases found with
  | none => rfl
  | some value => simp [orDefault, Option.filter, hfits value rfl]

/-- Fields are read exactly if each of the four is. -/
theorem decodeFields_eq_ok_iff {fields : Json.Object} (hnames : (Fields.names fields).Nodup)
    {before after : Settings} :
    decodeFields before fields = .ok after ↔
      ∀ field : SettingsField, Takes field (Fields.get? fields field.name) before after := by
  induction fields generalizing before with
  | nil =>
    rw [decodeFields, Except.ok.injEq, eq_comm, eq_iff_entry]
    simp [Takes]
  | cons first rest ih =>
    rcases first with ⟨name, value⟩
    rcases List.nodup_cons.mp hnames with ⟨hname, hrest⟩
    by_cases hknown : ∃ field : SettingsField, name = field.name
    · rcases hknown with ⟨field, rfl⟩
      have hhere : Fields.get? ((field.name, value) :: rest) field.name = some value := by
        simp [Fields.get?_cons]
      cases hfits : field.fits value with
      | false =>
        rw [decodeFields_of_misfit before hfits]
        simp only [reduceCtorEq, false_iff, not_forall]
        refine ⟨field, fun htakes => ?_⟩
        rw [htakes.1 value hhere] at hfits
        cases hfits
      | true =>
        -- the name stands here only, so what is read later leaves the field alone
        have hlater : Fields.get? rest field.name = none := Fields.get?_eq_none_iff.mpr hname
        rw [decodeFields_of_fits before hfits, ih hrest]
        refine forall_congr' fun other => ?_
        by_cases hother : other = field
        · subst hother
          simp [Takes, hhere, hlater, hfits, entry_put before hfits]
        · have hne : ¬ other.name = field.name := mt SettingsField.name_inj.mp hother
          simp [Takes, Fields.get?_cons, hne, hother, entry_put before hfits]
    · rw [not_exists] at hknown
      rw [decodeFields_unknown before hknown, ih hrest]
      refine forall_congr' fun other => ?_
      rw [Fields.get?_cons, if_neg (Ne.symm (hknown other))]

/-- **The strict reader accepts an object exactly if all that stands under the four names
    fits, and reads it as the lenient one does.** -/
theorem decode_eq_ok_iff {fields : Json.Object} (hnames : (Fields.names fields).Nodup)
    {settings : Settings} :
    decode (.obj fields) = .ok settings ↔
      (∀ (field : SettingsField) (value : Json), Fields.get? fields field.name = some value →
        field.fits value = true) ∧ ofFields fields = settings := by
  have hread : decodeFields {} fields = .ok settings ↔ _ := decodeFields_eq_ok_iff hnames
  simp only [takes_default_iff, forall_and, ← entry_ofFields] at hread
  rw [decode, hread, ← eq_iff_entry, @eq_comm _ settings]
  rfl

/-! ### What was written -/

theorem get?_written {settings : Settings} {written : Json.Object}
    (h : settings.toJson = .obj written) (field : SettingsField) :
    Fields.get? written field.name = some (settings.entry field) := by
  obtain rfl := Json.obj.inj h
  cases field <;> rfl

/-- Whatever is added to written settings, in whatever order, they are read back. -/
theorem decode_of_written {settings : Settings} {written unknown fields : Json.Object}
    (hwritten : settings.toJson = .obj written) (hperm : fields.Perm (written ++ unknown))
    (hnames : (Fields.names fields).Nodup) : decode (.obj fields) = .ok settings := by
  have hget : ∀ field : SettingsField,
      Fields.get? fields field.name = some (settings.entry field) := by
    intro field
    rw [Fields.get?_perm hperm hnames, Fields.get?_append, get?_written hwritten, Option.some_or]
  refine (decode_eq_ok_iff hnames).mpr ⟨?_, eq_iff_entry.mpr ?_⟩
  · intro field value hvalue
    rw [hget field, Option.some.injEq] at hvalue
    exact fits_iff.mpr ⟨settings, hvalue.symm⟩
  · intro field
    have hfits : field.fits (settings.entry field) = true := fits_iff.mpr ⟨settings, rfl⟩
    simp [entry_ofFields, hget field, orDefault, Option.filter, hfits]

/-! ### Settings in files -/

theorem load_of_readValue {fs fs' : FileSystem} {path : String} {document : Json}
    (h : (Document.readValue path).run fs = (.ok document, fs')) :
    (load path).run fs = (.ok (ofDocument document), fs') := by
  obtain ⟨rfl, text, htext, -⟩ := Document.readValue_eq_ok_iff.mp h
  rw [load, Disk.run_get_bind, if_pos (FileSystem.isThere_of_readText htext),
    Disk.run_bind_of_ok h]
  rfl

/-- **Settings are loaded as the strict reader reads them**, where it accepts the settings
    object of the file: no name stands twice in it, since it was read. -/
theorem load_of_decode {fs fs' : FileSystem} {path : String} {document : Json}
    {fields : Json.Object} {settings : Settings}
    (hread : (Document.readValue path).run fs = (.ok document, fs'))
    (hsettings : document.field? "settings" = some (.obj fields))
    (hdecode : decode (.obj fields) = .ok settings) :
    (load path).run fs = (.ok settings, fs') := by
  have hdistinct := (Document.within_of_readValue hread).wellFormed.distinct
  have hnames := (Json.distinct_obj.mp (Json.distinct_of_field? hdistinct hsettings)).1
  rw [load_of_readValue hread, ofDocument_of_settings hsettings,
    ((decode_eq_ok_iff hnames).mp hdecode).2]

/-- Settings that were saved in a document are loaded from its file. -/
theorem load_of_save {fs fs' : FileSystem} {now path : String} {document stamped : Json}
    {fields : Json.Object} {settings : Settings}
    (hreadable : Json.Readable Json.maxDepth document)
    (hsettings : document.field? "settings" = some (.obj fields))
    (hdecode : decode (.obj fields) = .ok settings)
    (hsave : (Document.save now document path).run fs = (.ok stamped, fs')) :
    (load path).run fs' = (.ok settings, fs') := by
  have hread : (Document.readValue path).run fs' = (.ok stamped, fs') :=
    Document.readValue_eq_ok_iff.mpr ⟨rfl, Document.parse_of_save hreadable hsave⟩
  have hstamped : stamped.field? "settings" = some (.obj fields) := by
    rw [(Document.save_eq_ok hsave).1, Document.field?_stamp now document (by decide), hsettings]
  exact load_of_decode hread hstamped hdecode

/-! ### Changing one field -/

/-- A change to one entry of an object: it is given a value, in its place or at the end, or
    it is left out, or it is taken out and the last entry moves into the gap. -/
inductive Change where
  | replace (value : Json)
  | leaveOut
  | takeOut

/-- What stands under the name after a change. -/
def Change.value? : Change → Option Json
  | .replace value => some value
  | .leaveOut => none
  | .takeOut => none

def Change.apply (change : Change) (fields : Json.Object) (name : String) : Json.Object :=
  match change with
  | .replace value => Fields.set fields name value
  | .leaveOut => Fields.erase fields name
  | .takeOut => (Fields.extract fields name).2

/-- A document with a change to one field of its settings object; the same document if it
    has none. -/
def amend (document : Json) (field : SettingsField) (change : Change) : Json :=
  match document with
  | .obj entries =>
    match Fields.get? entries "settings" with
    | some (.obj fields) =>
      .obj (Fields.set entries "settings" (.obj (change.apply fields field.name)))
    | _ => document
  | _ => document

theorem Change.get?_apply (change : Change) {fields : Json.Object}
    (hnames : (Fields.names fields).Nodup) (name other : String) :
    Fields.get? (change.apply fields name) other
      = if other = name then change.value? else Fields.get? fields other := by
  cases change with
  | replace value => exact Fields.get?_set fields name value other
  | leaveOut => exact Fields.get?_erase fields name other
  | takeOut => exact Fields.get?_extract hnames name other

theorem entry_ofFields_apply {fields : Json.Object} (hnames : (Fields.names fields).Nodup)
    (field : SettingsField) (change : Change) (other : SettingsField) :
    (ofFields (change.apply fields field.name)).entry other
      = if other = field then orDefault field change.value? else (ofFields fields).entry other := by
  rw [entry_ofFields, entry_ofFields, change.get?_apply hnames]
  by_cases hother : other = field
  · simp [hother]
  · have hne : ¬ other.name = field.name := mt SettingsField.name_inj.mp hother
    simp [hother, hne]

theorem ofDocument_amend {document : Json} {fields : Json.Object}
    (h : document.field? "settings" = some (.obj fields)) (field : SettingsField)
    (change : Change) :
    ofDocument (amend document field change) = ofFields (change.apply fields field.name) := by
  cases document with
  | obj entries =>
    have hentry : Fields.get? entries "settings" = some (.obj fields) := h
    apply ofDocument_of_settings
    simp [amend, hentry, Json.field?, Fields.get?_set]
  | _ => cases h

theorem amend_of_no_settings {document : Json}
    (h : ∀ fields, document.field? "settings" ≠ some (.obj fields)) (field : SettingsField)
    (change : Change) : amend document field change = document := by
  cases document with
  | obj entries =>
    rw [amend]
    split
    · rename_i fields hentry
      exact absurd hentry (h fields)
    · rfl
  | _ => rfl

/-- After a change the field has what it was given, or its default, and the other fields
    have what they had. -/
theorem entry_amend {document : Json} {fields : Json.Object} (hdistinct : document.Distinct)
    (hsettings : document.field? "settings" = some (.obj fields)) (field : SettingsField)
    (change : Change) (other : SettingsField) :
    (ofDocument (amend document field change)).entry other
      = if other = field then orDefault field change.value?
        else (ofDocument document).entry other := by
  have hnames := (Json.distinct_obj.mp (Json.distinct_of_field? hdistinct hsettings)).1
  rw [ofDocument_amend hsettings, ofDocument_of_settings hsettings, entry_ofFields_apply hnames]

/-- The other fields stay as they are whatever the document. -/
theorem entry_amend_of_ne {document : Json} (hdistinct : document.Distinct)
    {field other : SettingsField} (hother : other ≠ field) (change : Change) :
    (ofDocument (amend document field change)).entry other = (ofDocument document).entry other := by
  by_cases hsettings : ∃ fields, document.field? "settings" = some (.obj fields)
  · rcases hsettings with ⟨fields, hfields⟩
    rw [entry_amend hdistinct hfields, if_neg hother]
  · rw [amend_of_no_settings (not_exists.mp hsettings)]

/-- **The readers of settings agree field by field.**  Whatever document the settings object
    stands in, the strict reader accepts the object exactly if what it has under the four
    names is of the kinds these ask for, and then gives what the lenient reader finds in the
    document.  Written settings are given back by both, with any fields added (unknown ones,
    since no name stands twice) and in any order.  In every document a change to one of the
    four fields of the settings object is seen in that field only: its new value is what it
    was given, if that fits, and otherwise its default. -/
theorem readers_agree_field_by_field :
    (∀ (document : Json) (fields : Json.Object) (settings : Settings),
      (Fields.names fields).Nodup → document.field? "settings" = some (.obj fields) →
      (decode (.obj fields) = .ok settings ↔
        (∀ (field : SettingsField) (value : Json), Fields.get? fields field.name = some value →
          field.fits value = true) ∧ ofDocument document = settings)) ∧
    (∀ (document : Json) (settings : Settings) (written unknown fields : Json.Object),
      settings.toJson = .obj written → fields.Perm (written ++ unknown) →
      (Fields.names fields).Nodup → document.field? "settings" = some (.obj fields) →
      decode (.obj fields) = .ok settings ∧ ofDocument document = settings) ∧
    (∀ (document : Json) (field : SettingsField) (change : Change), document.Distinct →
      (∀ other, other ≠ field →
        (ofDocument (amend document field change)).entry other
          = (ofDocument document).entry other) ∧
      ∀ fields, document.field? "settings" = some (.obj fields) →
        (ofDocument (amend document field change)).entry field
          = orDefault field change.value?) := by
  refine ⟨?_, ?_, ?_⟩
  · intro document fields settings hnames hsettings
    rw [ofDocument_of_settings hsettings]
    exact decode_eq_ok_iff hnames
  · intro document settings written unknown fields hwritten hperm hnames hsettings
    have hdecode := decode_of_written hwritten hperm hnames
    rw [ofDocument_of_settings hsettings]
    exact ⟨hdecode, ((decode_eq_ok_iff hnames).mp hdecode).2⟩
  · intro document field change hdistinct
    refine ⟨fun other hother => entry_amend_of_ne hdistinct hother change, ?_⟩
    intro fields hsettings
    rw [entry_amend hdistinct hsettings, if_pos rfl]

/-- Settings with two fields left out and an unknown one between the others. -/
def keywordless : Json :=
  .obj [("settings", .obj [("history_enabled", .bool false), ("future_flag", Json.int 1),
    ("fallback_mode", .str "none")])]

/-- Reading them, reading written settings with fields between theirs, and giving the flag a
    text. -/
theorem readers_agree_field_by_field_keywordless :
    ofDocument keywordless = ⟨"anthropic", "none", false, true⟩ ∧
      decode (.obj [("note", .null), ("ai_provider", .str "a"), ("cache_enabled", .bool true),
        ("history_enabled", .bool false), ("x", .arr []), ("fallback_mode", .str "b")])
        = .ok ⟨"a", "b", false, true⟩ ∧
      (ofDocument (amend keywordless .historyEnabled (.replace (.str "yes")))).entry .historyEnabled
        = .bool true ∧
      (ofDocument (amend keywordless .historyEnabled (.replace (.str "yes")))).entry .fallbackMode
        = .str "none" := by
  refine ⟨?_, ?_, ?_, ?_⟩
  · exact ((readers_agree_field_by_field.1 keywordless _ _ (by decide) rfl).mp rfl).2
  · exact (readers_agree_field_by_field.2.1 (.obj [("settings", _)]) _ _
      [("note", .null), ("x", .arr [])] _ rfl (by decide) (by decide) rfl).1
  · exact (readers_agree_field_by_field.2.2 keywordless .historyEnabled _ (by decide)).2 _ rfl
  · exact (readers_agree_field_by_field.2.2 keywordless _ _ (by decide)).1 .fallbackMode
      (by decide)

end Settings
end FlowDocs
