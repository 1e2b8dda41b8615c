/-
  FlowDocs/Proofs/Context/Decoding.lean
  =====================================
  **The two readers of contexts and the writer.**

  `Context.ofJson` takes what it can use from any value, `Context.decode` wants a context
  and nothing else.  Where the strict reader succeeds the two give the same context, apart
  from the order of the extra fields: the lenient one takes the parts out, which moves
  other fields into the gaps.  Both undo the writer on every context that was read from a
  value and changed by the operations on contexts, since these keep the invariant `Proper`
  that a written context needs to be read back.
-/
import FlowDocs.Proofs.Context.Parts
import FlowDocs.Proofs.Context.Variables
import FlowDocs.Proofs.Json.Subvalues

namespace FlowDocs
namespace Context

/-- The names of the parts, which no extra field has. -/
def partNames : List String := ["inputs", "steps", "env"]

/-- The same context but for the order of the extra fields. -/
structure SameFields (c₁ c₂ : Context) : Prop where
  inputs : c₁.inputs = c₂.inputs
  steps : c₁.steps = c₂.steps
  env : c₁.env = c₂.env
  extra : c₁.extra.Perm c₂.extra

/-- What holds of every context that was read: the extra fields are apart from the parts,
    no extra field stands twice, and the environment is in the order of its names. -/
structure Proper (context : Context) : Prop where
  separate : context.Separate
  extra : (Fields.names context.extra).Nodup
  env : context.env.Ascending

/-- A change to a context: one of its parts is replaced, or the output of a step is
    recorded. -/
inductive Edit where
  | inputs (fields : Json.Object)
  | steps (fields : Json.Object)
  | env (pairs : List (String × String))
  | step (id : String) (output : Json)

def edit (context : Context) : Edit → Context
  | .inputs fields => { context with inputs := fields }
  | .steps fields => { context with steps := fields }
  | .env pairs => { context with env := .ofPairs pairs }
  | .step id output => context.recordStep id output

def editAll (context : Context) (edits : List Edit) : Context := edits.foldl edit context

/-! ### What the lenient reader finds -/

variable {value : Json} {fields : Json.Object}

theorem ofJson_obj (h : (Fields.names fields).Nodup) :
    (ofJson (.obj fields)).inputs = part (Fields.get? fields "inputs") ∧
      (ofJson (.obj fields)).steps = part (Fields.get? fields "steps") ∧
      (ofJson (.obj fields)).env = Variables.ofFields (part (Fields.get? fields "env")) := by
  have hinputs := Fields.nodup_names_extract h "inputs"
  refine ⟨?_, ?_, ?_⟩
  · change part (Fields.extract fields "inputs").1 = _
    rw [Fields.fst_extract]
  · change part (Fields.extract (Fields.extract fields "inputs").2 "steps").1 = _
    rw [Fields.fst_extract, Fields.get?_extract h, if_neg (by decide)]
  · change Variables.ofFields (part
      (Fields.extract (Fields.extract (Fields.extract fields "inputs").2 "steps").2 "env").1) = _
    rw [Fields.fst_extract, Fields.get?_extract hinputs, if_neg (by decide),
      Fields.get?_extract h, if_neg (by decide)]

theorem perm_extra_ofJson (h : (Fields.names fields).Nodup) :
    (ofJson (.obj fields)).extra.Perm (fields.filter fun field => field.1 ∉ partNames) := by
  have hinputs := Fields.nodup_names_extract h "inputs"
  have hsteps := Fields.nodup_names_extract hinputs "steps"
  have hfilter : ((fields.filter fun field => field.1 ≠ "inputs").filter
      fun field => field.1 ≠ "steps").filter (fun field => field.1 ≠ "env")
        = fields.filter fun field => field.1 ∉ partNames := by
    rw [List.filter_filter, List.filter_filter]
    apply List.filter_congr
    intro field _
    simp [partNames, Bool.and_comm, Bool.and_left_comm]
  rw [extra_ofJson, ← hfilter]
  refine (Fields.extract_perm_erase hsteps "env").trans ?_
  refine ((Fields.extract_perm_erase hinputs "steps").filter _).trans ?_
  exact ((Fields.extract_perm_erase h "inputs").filter _).filter _

theorem proper_ofJson (h : ∀ fields ∈ value.fields?, (Fields.names fields).Nodup) :
    (ofJson value).Proper := by
  refine ⟨separate_ofJson h, ?_, ?_⟩
  · cases value with
    | obj fields =>
      have hinputs := Fields.nodup_names_extract (h fields rfl) "inputs"
      exact Fields.nodup_names_extract (Fields.nodup_names_extract hinputs "steps") "env"
    | _ => exact List.nodup_nil
  · cases value with
    | obj fields => exact Variables.ascending_ofPairs _
    | _ => exact List.Pairwise.nil

/-! ### What the strict reader accepts -/

theorem asMap_eq_ok_iff {fields : Json.Object} :
    Json.asMap value = .ok fields ↔ value = .obj fields := by
  cases value <;> simp [Json.asMap]

/-- The variables of an object all of whose values are strings. -/
def asVariables (value : Json) : Except Json.ShapeError Variables :=
  match Json.asMap value with
  | .error e => .error e
  | .ok fields => decodeVariables [] fields

/-- A part after reading: the one so far where there is no field for it, and otherwise
    what the field is read as. -/
inductive PartRead {α : Type} (reads : Json → Except Json.ShapeError α) (before : α) :
    Option Json → α → Prop
  | kept : PartRead reads before none before
  | found {value : Json} {after : α} : reads value = .ok after →
      PartRead reads before (some value) after

namespace PartRead

variable {α : Type} {reads : Json → Except Json.ShapeError α} {before middle after : α}
  {name other : String} {rest : Json.Object}

theorem here (h : reads value = .ok after) :
    PartRead reads before (Fields.get? [(name, value)] name) after := by
  rw [Fields.get?_cons, if_pos rfl]
  exact .found h

theorem elsewhere (h : other ≠ name) :
    PartRead reads before (Fields.get? [(name, value)] other) before := by
  rw [Fields.get?_cons, if_neg h]
  exact .kept

/-- Reading one field and then others that do not have its name. -/
theorem cons (hname : name ∉ Fields.names rest)
    (hfirst : PartRead reads before (Fields.get? [(name, value)] other) middle)
    (hrest : PartRead reads middle (Fields.get? rest other) after) :
    PartRead reads before (Fields.get? ((name, value) :: rest) other) after := by
  rw [Fields.get?_cons] at hfirst ⊢
  by_cases h : other = name
  · subst h
    rw [Fields.get?_eq_none_iff.mpr hname] at hrest
    rw [if_pos rfl] at hfirst ⊢
    cases hrest with
    | kept => exact hfirst
  · rw [if_neg h] at hfirst ⊢
    cases hfirst with
    | kept => exact hrest

end PartRead

/-- What reading fields into a context makes of it. -/
structure FieldsRead (context : Context) (fields : Json.Object) (context' : Context) : Prop where
  inputs : PartRead Json.asMap context.inputs (Fields.get? fields "inputs") context'.inputs
  steps : PartRead Json.asMap context.steps (Fields.get? fields "steps") context'.steps
  env : PartRead asVariables context.env (Fields.get? fields "env") context'.env
  extra : context'.extra = context.extra ++ fields.filter fun field => field.1 ∉ partNames

/-- The fields are read one by one. -/
theorem decodeFields_cons {context context' : Context} {field : String × Json}
    {rest : Json.Object} (h : decodeFields context (field :: rest) = .ok context') :
    ∃ middle, decodeFields context [field] = .ok middle ∧
      decodeFields middle rest = .ok context' := by
  obtain ⟨name, value⟩ := field
  simp only [decodeFields] at h ⊢
  split_ifs at h ⊢
  · cases value with
    | obj fields => exact ⟨_, rfl, h⟩
    | _ => cases h
  · cases value with
    | obj fields => exact ⟨_, rfl, h⟩
    | _ => cases h
  · cases value with
    | obj fields =>
      simp only [Json.asMap] at h ⊢
      split at h
      · cases h
      · exact ⟨_, rfl, h⟩
    | _ => cases h
  · exact ⟨_, rfl, h⟩

/-- One field is read into the part it names, or is an extra field. -/
theorem fieldsRead_of_decodeField {context context' : Context} {field : String × Json}
    (h : decodeFields context [field] = .ok context') : FieldsRead context [field] context' := by
  obtain ⟨name, value⟩ := field
  simp only [decodeFields] at h
  split_ifs at h with hinputs hsteps henv
  · subst hinputs
    split at h
    · cases h
    · rename_i part hpart
      cases h
      exact ⟨.here hpart, .elsewhere (by decide), .elsewhere (by decide),
        (List.append_nil _).symm⟩
  · subst hsteps
    split at h
    · cases h
    · rename_i part hpart
      cases h
      exact ⟨.elsewhere (by decide), .here hpart, .elsewhere (by decide),
        (List.append_nil _).symm⟩
  · subst henv
    split at h
    · cases h
    · rename_i part hpart
      split at h
      · cases h
      · rename_i env hvariables
        have hread : asVariables value = .ok env := by
          rw [asVariables, hpart]
          exact hvariables
        cases h
        exact ⟨.elsewhere (by decide), .elsewhere (by decide), .here hread,
          (List.append_nil _).symm⟩
  · have hextra : name ∉ partNames := by simp [partNames, hinputs, hsteps, henv]
    cases h
    refine ⟨.elsewhere (Ne.symm hinputs), .elsewhere (Ne.symm hsteps),
      .elsewhere (Ne.symm henv), ?_⟩
    rw [List.filter_cons_of_pos (by simpa using hextra), List.filter_nil]

theorem fieldsRead_of_decodeFields {context context' : Context}
    (hnodup : (Fields.names fields).Nodup) (h : decodeFields context fields = .ok context') :
    FieldsRead context fields context' := by
  induction fields generalizing context with
  | nil =>
    cases h
    exact ⟨.kept, .kept, .kept, (List.append_nil _).symm⟩
  | cons field rest ih =>
    obtain ⟨hname, hrest⟩ := List.nodup_cons.mp hnodup
    obtain ⟨middle, hfield, hmiddle⟩ := decodeFields_cons h
    have hfirst := fieldsRead_of_decodeField hfield
    have hlater := ih hrest hmiddle
    refine ⟨hfirst.inputs.cons hname hlater.inputs, hfirst.steps.cons hname hlater.steps,
      hfirst.env.cons hname hlater.env, ?_⟩
    rw [hlater.extra, hfirst.extra, List.append_assoc, ← List.filter_append]
    rfl

/-! ### Variables -/

/-- The strings among the fields. -/
def texts (fields : Json.Object) : List (String × String) :=
  fields.filterMap fun field => field.2.text?.map fun text => (field.1, text)

/-- Where the strict reader succeeds, the strings are all there is. -/
theorem decodeVariables_ok {env env' : Variables} (h : decodeVariables env fields = .ok env') :
    env' = env.setAll (texts fields) := by
  induction fields generalizing env with
  | nil => cases h; rfl
  | cons field rest ih =>
    obtain ⟨name, value⟩ := field
    rw [decodeVariables] at h
    cases value with
    | str text => exact ih h
    | _ => cases h

theorem decodeVariables_texts (env : Variables) (pairs : List (String × String)) :
    decodeVariables env (pairs.map fun pair => (pair.1, .str pair.2)) = .ok (env.setAll pairs) := by
  induction pairs generalizing env with
  | nil => rfl
  | cons pair rest ih => exact ih (env.set pair.1 pair.2)

theorem names_texts_sublist (fields : Json.Object) :
    (Fields.names (texts fields)).Sublist (Fields.names fields) := by
  induction fields with
  | nil => exact .slnil
  | cons field rest ih =>
    obtain ⟨name, value⟩ := field
    cases value with
    | str text => exact ih.cons_cons name
    | _ => exact ih.cons name

theorem mem_texts {name text : String} :
    (name, text) ∈ texts fields ↔ (name, .str text) ∈ fields := by
  rw [texts, List.mem_filterMap]
  constructor
  · rintro ⟨⟨name', value⟩, hmem, htext⟩
    cases value with
    | str text' => cases htext; exact hmem
    | _ => cases htext
  · intro hmem
    exact ⟨_, hmem, rfl⟩

/-- The lenient reader keeps exactly the strings. -/
theorem get?_ofFields (h : (Fields.names fields).Nodup) (name text : String) :
    Fields.get? (Variables.ofFields fields) name = some text
      ↔ Fields.get? fields name = some (.str text) := by
  have htexts : (Fields.names (texts fields)).Nodup := h.sublist (names_texts_sublist fields)
  have hreverse := Fields.get?_perm (List.reverse_perm (texts fields)).symm htexts name
  change Fields.get? (Variables.ofPairs (texts fields)) name = _ ↔ _
  rw [Variables.get?_ofPairs, ← hreverse, Fields.get?_eq_some_iff htexts, mem_texts,
    Fields.get?_eq_some_iff h]

/-! ### The readers agree -/

theorem PartRead.eq_part {found : Option Json} {after : Json.Object}
    (h : PartRead Json.asMap [] found after) : after = part found := by
  cases h with
  | kept => rfl
  | found hmap =>
    obtain rfl := asMap_eq_ok_iff.mp hmap
    rfl

theorem PartRead.eq_ofFields {found : Option Json} {after : Variables}
    (h : PartRead asVariables [] found after) : after = Variables.ofFields (part found) := by
  cases h with
  | kept => rfl
  | found hread =>
    rw [asVariables] at hread
    split at hread
    · cases hread
    · rename_i fields hmap
      obtain rfl := asMap_eq_ok_iff.mp hmap
      exact decodeVariables_ok hread

/-- What the strict reader accepts it reads as the lenient one does. -/
theorem sameFields_of_decode {context : Context}
    (hnodup : ∀ fields ∈ value.fields?, (Fields.names fields).Nodup)
    (h : decode value = .ok context) : (ofJson value).SameFields context := by
  cases value with
  | obj fields =>
    have hread := fieldsRead_of_decodeFields (hnodup fields rfl) h
    obtain ⟨hinputs, hsteps, henv⟩ := ofJson_obj (hnodup fields rfl)
    have hextra : context.extra = fields.filter fun field => field.1 ∉ partNames := hread.extra
    refine ⟨?_, ?_, ?_, ?_⟩
    · rw [hinputs, hread.inputs.eq_part]
    · rw [hsteps, hread.steps.eq_part]
    · rw [henv, hread.env.eq_ofFields]
    · rw [hextra]
      exact perm_extra_ofJson (hnodup fields rfl)
  | _ => cases h

theorem SameFields.proper {c₁ c₂ : Context} (h : c₁.SameFields c₂) (hproper : c₁.Proper) :
    c₂.Proper := by
  have hnames : (Fields.names c₁.extra).Perm (Fields.names c₂.extra) := h.extra.map Prod.fst
  refine ⟨?_, hnames.nodup_iff.mp hproper.extra, h.env ▸ hproper.env⟩
  intro name hname hmem
  exact hproper.separate name hname (hnames.mem_iff.mpr hmem)

/-! ### Changes keep the invariant -/

theorem proper_edit {context : Context} (h : context.Proper) (change : Edit) :
    (context.edit change).Proper := by
  cases change with
  | inputs fields => exact ⟨h.separate, h.extra, h.env⟩
  | steps fields => exact ⟨h.separate, h.extra, h.env⟩
  | env pairs => exact ⟨h.separate, h.extra, Variables.ascending_ofPairs pairs⟩
  | step id output => exact ⟨h.separate, h.extra, h.env⟩

theorem proper_editAll {context : Context} (h : context.Proper) (edits : List Edit) :
    (context.editAll edits).Proper := by
  induction edits generalizing context with
  | nil => exact h
  | cons change rest ih => exact ih (proper_edit h change)

/-! ### Reading what was written -/

/-- Written out, the extra fields stand behind the parts. -/
theorem Separate.toJson_eq {context : Context} (h : context.Separate) :
    context.toJson = .obj (context.parts ++ context.extra) := by
  have hparts : (context.parts.map fun field =>
      (field.1, (Fields.get? context.extra field.1).getD field.2)) = context.parts := by
    have hnone : ∀ name ∈ partNames, Fields.get? context.extra name = none :=
      fun name hname => Fields.get?_eq_none_iff.mpr (h name hname)
    simp only [parts, List.map_cons, List.map_nil, hnone "inputs" (by decide),
      hnone "steps" (by decide), hnone "env" (by decide), Option.getD_none]
  have hextra : (context.extra.filter fun field => field.1 ∉ Fields.names context.parts)
      = context.extra := by
    apply List.filter_eq_self.mpr
    intro field hfield
    have hnot : field.1 ∉ partNames := fun hmem => h field.1 hmem (List.mem_map_of_mem hfield)
    simpa [partNames, Fields.names, parts] using hnot
  rw [toJson, Fields.overlay, hparts, hextra]

theorem decodeFields_extra {context : Context}
    (h : ∀ name ∈ partNames, name ∉ Fields.names fields) :
    decodeFields context fields = .ok { context with extra := context.extra ++ fields } := by
  induction fields generalizing context with
  | nil => simp [decodeFields]
  | cons field rest ih =>
    obtain ⟨name, value⟩ := field
    have hne : ∀ other ∈ partNames, name ≠ other := by
      rintro other hother rfl
      exact h name hother List.mem_cons_self
    have hrest : ∀ other ∈ partNames, other ∉ Fields.names rest :=
      fun other hother hmem => h other hother (List.mem_cons_of_mem name hmem)
    rw [decodeFields, if_neg (hne _ (by decide)), if_neg (hne _ (by decide)),
      if_neg (hne _ (by decide)), ih hrest, List.append_assoc]
    rfl

/-- **A written context is read back by the strict reader.** -/
theorem decode_toJson {context : Context} (h : context.Proper) :
    decode context.toJson = .ok context := by
  have hvariables : decodeVariables [] (context.env.map fun entry => (entry.1, .str entry.2))
      = .ok context.env := by
    rw [decodeVariables_texts, @Variables.setAll_of_ascending [] _ h.env]
    rfl
  rw [h.separate.toJson_eq]
  simp only [decode, Json.asRecord, parts, List.cons_append, List.nil_append, decodeFields,
    Json.asMap, Variables.toJson, hvariables, if_pos]
  simp [decodeFields_extra h.separate, empty]

theorem Proper.sameFields_ofJson_toJson {context : Context} (h : context.Proper) :
    (ofJson context.toJson).SameFields context := by
  refine sameFields_of_decode ?_ (decode_toJson h)
  intro fields hfields
  rw [h.separate.toJson_eq] at hfields
  cases hfields
  rw [Fields.names, List.map_append, List.nodup_append']
  refine ⟨(by decide : partNames.Nodup), h.extra, ?_⟩
  intro name hname hmem
  exact h.separate name hname hmem

/-! ### The parts of a value without repeated names -/

theorem nodup_of_distinct (h : value.Distinct) :
    ∀ fields ∈ value.fields?, (Fields.names fields).Nodup := by
  intro fields hfields
  cases value with
  | obj fields' => cases hfields; exact (Json.distinct_obj.mp h).1
  | _ => cases hfields

/-- The fields of a part: those of the object that stands there. -/
theorem part_eq (found : Option Json) :
    part found = match found with
      | some (.obj fields) => fields
      | _ => [] := by
  cases found with
  | none => rfl
  | some value => cases value <;> rfl

theorem get?_env_ofJson (h : value.Distinct) (name text : String) :
    Fields.get? (ofJson value).env name = some text ↔
      ∃ fields, value.field? "env" = some (.obj fields) ∧
        Fields.get? fields name = some (.str text) := by
  cases value with
  | obj fields =>
    have henv := (ofJson_obj (nodup_of_distinct h fields rfl)).2.2
    rw [henv, part_eq]
    change _ ↔ ∃ inner, Fields.get? fields "env" = some (.obj inner) ∧ _
    split
    · rename_i inner hfield
      have hinner := nodup_of_distinct (Json.distinct_of_field? h hfield) inner rfl
      rw [get?_ofFields hinner]
      simp [hfield]
    · rename_i hnone
      constructor
      · intro hget
        cases hget
      · rintro ⟨inner, hfield, -⟩
        exact absurd hfield (hnone inner)
  | _ => simp [ofJson, empty, Json.field?]

theorem get?_extra_ofJson (h : value.Distinct) {name : String} (hname : name ∉ partNames) :
    Fields.get? (ofJson value).extra name = value.field? name := by
  cases value with
  | obj fields =>
    have hnames := nodup_of_distinct h fields rfl
    have hfilter := Fields.get?_filter (fun n => decide (n ∉ partNames)) fields name
    rw [if_pos (decide_eq_true hname)] at hfilter
    rw [Fields.get?_perm (perm_extra_ofJson hnames) (proper_ofJson (nodup_of_distinct h)).extra]
    exact hfilter
  | _ => rfl

/-- **The readers agree and undo the writer.**  The lenient reader gives a context whose
    extra fields are apart from the parts and are all other fields of the value; each part
    comes from the field of its own name alone, and of the environment exactly the strings
    are kept.  What the strict reader accepts the lenient one reads alike.  A context that
    either of them has read, however it was changed since, is written out so that both
    readers give it back. -/
theorem readers_agree_and_undo_writer :
    (∀ value : Json, value.Distinct →
      (ofJson value).Proper ∧
      ((ofJson value).inputs = match value.field? "inputs" with
        | some (.obj fields) => fields
        | _ => []) ∧
      ((ofJson value).steps = match value.field? "steps" with
        | some (.obj fields) => fields
        | _ => []) ∧
      (∀ name text, Fields.get? (ofJson value).env name = some text ↔
        ∃ fields, value.field? "env" = some (.obj fields) ∧
          Fields.get? fields name = some (.str text)) ∧
      (∀ name, name ∉ partNames → Fields.get? (ofJson value).extra name = value.field? name)) ∧
    (∀ (value : Json) (context : Context), value.Distinct → decode value = .ok context →
      (ofJson value).SameFields context) ∧
    (∀ (value : Json) (context : Context) (edits : List Edit), value.Distinct →
      (ofJson value = context ∨ decode value = .ok context) →
      (ofJson (context.editAll edits).toJson).SameFields (context.editAll edits) ∧
        decode (context.editAll edits).toJson = .ok (context.editAll edits)) := by
  refine ⟨?_, ?_, ?_⟩
  · intro value h
    refine ⟨proper_ofJson (nodup_of_distinct h), ?_, ?_, get?_env_ofJson h,
      fun name => get?_extra_ofJson h⟩
    · cases value with
      | obj fields => exact (ofJson_obj (nodup_of_distinct h fields rfl)).1.trans (part_eq _)
      | _ => rfl
    · cases value with
      | obj fields => exact (ofJson_obj (nodup_of_distinct h fields rfl)).2.1.trans (part_eq _)
      | _ => rfl
  · intro value context h
    exact sameFields_of_decode (nodup_of_distinct h)
  · intro value context edits h hread
    have hlenient := proper_ofJson (nodup_of_distinct h)
    have hproper : context.Proper := by
      rcases hread with rfl | hdecode
      · exact hlenient
      · exact (sameFields_of_decode (nodup_of_distinct h) hdecode).proper hlenient
    have hedited := proper_editAll hproper edits
    exact ⟨hedited.sameFields_ofJson_toJson, decode_toJson hedited⟩

/-- An environment with a number in it, a value with all parts, and a context that was
    changed twice. -/
theorem readers_agree_and_undo_writer_region :
    (ofJson (.obj [("steps", .null), ("region", .str "eu"),
        ("env", .obj [("B", .str "b"), ("A", .bool true)])])).Proper ∧
      (ofJson (.obj [("a", .null), ("env", .obj [("B", .str "b"), ("A", .str "a")]), ("c", .null)])
        ).SameFields ⟨[], [], [("A", "a"), ("B", "b")], [("a", .null), ("c", .null)]⟩ ∧
      decode (editAll (ofJson (.obj [("a", .null), ("inputs", .obj []), ("c", .null)]))
          [.env [("B", "b"), ("A", "a"), ("B", "c")], .step "s" .null]).toJson
        = .ok ⟨[], [("s", .null)], [("A", "a"), ("B", "c")], [("a", .null), ("c", .null)]⟩ := by
  refine ⟨?_, ?_, ?_⟩
  · exact (readers_agree_and_undo_writer.1 _ (by decide)).1
  · exact readers_agree_and_undo_writer.2.1 _ _ (by decide) (by rfl)
  · exact (readers_agree_and_undo_writer.2.2 _ _ _ (by decide) (Or.inl rfl)).2

end Context
end FlowDocs
