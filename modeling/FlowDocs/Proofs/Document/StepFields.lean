/-
  FlowDocs/Proofs/Document/StepFields.lean
  ========================================
  **A step is its fields.**

  Reading a step takes four of its fields into places of their own and keeps the others
  as they come; writing it puts the four in front.  So nothing is lost between the two,
  and nothing is added but `params` where it was left out: every name has its old value,
  no name stands twice, and the other fields keep their order.  The steps of a document
  are read exactly if each of them has the three strings a step needs, and what refuses
  them otherwise is the first that has not.
-/
import FlowDocs.Proofs.Context.Decoding
import FlowDocs.Proofs.Document.Steps

namespace FlowDocs

/-! ### Reading the fields of a step -/

namespace Step

/-- The names of the fields that a step has places for. -/
def ownNames : List String := ["id", "service", "action", "params"]

/-- The fields that a step keeps as they come. -/
def others (fields : Json.Object) : Json.Object :=
  fields.filter fun field => field.1 ∉ ownNames

theorem mem_ownNames {name : String} :
    name ∈ ownNames ↔ (∃ field : StepField, name = field.name) ∨ name = "params" := by
  constructor
  · intro h
    simp only [ownNames, List.mem_cons, List.not_mem_nil, or_false] at h
    rcases h with rfl | rfl | rfl | rfl
    · exact Or.inl ⟨.id, rfl⟩
    · exact Or.inl ⟨.service, rfl⟩
    · exact Or.inl ⟨.action, rfl⟩
    · exact Or.inr rfl
  · rintro (⟨field, rfl⟩ | rfl)
    · cases field <;> decide
    · decide

theorem others_cons_own {name : String} (h : name ∈ ownNames) (value : Json)
    (rest : Json.Object) : others ((name, value) :: rest) = others rest := by
  simp [others, h]

theorem others_cons_other {name : String} (h : name ∉ ownNames) (value : Json)
    (rest : Json.Object) : others ((name, value) :: rest) = (name, value) :: others rest := by
  simp [others, h]

theorem get?_others {name : String} (h : name ∉ ownNames) (fields : Json.Object) :
    Fields.get? (others fields) name = Fields.get? fields name := by
  have hfilter := Fields.get?_filter (fun n => decide (n ∉ ownNames)) fields name
  simpa [h, others] using hfilter

theorem Draft.params_put (draft : Draft) (field : StepField) (text : String) :
    (draft.put field text).params = draft.params := by
  cases field <;> rfl

theorem Draft.extra_put (draft : Draft) (field : StepField) (text : String) :
    (draft.put field text).extra = draft.extra := by
  cases field <;> rfl

/-- What is read beside the three strings: the last `params`, and the other fields in their
    order. -/
theorem beside_of_decodeFields {fields : Json.Object} (hnames : (Fields.names fields).Nodup)
    {draft result : Draft} (h : decodeFields draft fields = .ok result) :
    result.params = (Fields.get? fields "params").or draft.params ∧
      result.extra = draft.extra ++ others fields := by
  induction fields generalizing draft with
  | nil =>
    cases h
    simp [others]
  | cons entry rest ih =>
    rcases entry with ⟨name, value⟩
    rcases List.nodup_cons.mp hnames with ⟨hname, hrest⟩
    by_cases hown : name ∈ ownNames
    · rw [others_cons_own hown]
      rcases mem_ownNames.mp hown with ⟨field, rfl⟩ | rfl
      · cases value with
        | str text =>
          rw [decodeFields_text] at h
          have hne : "params" ≠ field.name := by
            cases field <;> decide
          simpa [Fields.get?_cons, hne, Draft.params_put, Draft.extra_put] using ih hrest h
        | _ =>
          rw [decodeFields_not_text draft field rfl] at h
          cases h
      · have hlater : Fields.get? rest "params" = none := Fields.get?_eq_none_iff.mpr hname
        simpa [Fields.get?_cons, hlater] using ih hrest h
    · rw [others_cons_other hown]
      simp only [ownNames, List.mem_cons, List.not_mem_nil, or_false, not_or] at hown
      rcases hown with ⟨hid, hservice, haction, hparams⟩
      rw [decodeFields, if_neg hid, if_neg hservice, if_neg haction, if_neg hparams] at h
      simpa [Fields.get?_cons, Ne.symm hparams] using ih hrest h

/-- What a step was read from, taken apart. -/
theorem draft_of_decode {element : Json} {step : Step} (h : decode element = .ok step) :
    ∃ fields draft, element = .obj fields ∧ decodeFields {} fields = .ok draft ∧
      (∀ field : StepField, draft.get field = some (step.get field)) ∧
      step.params = draft.params.getD .null ∧ step.extra = draft.extra := by
  cases element with
  | obj fields =>
    simp only [decode, Json.asRecord] at h
    split at h
    · cases h
    · rename_i draft hdraft
      refine ⟨fields, draft, rfl, hdraft, ?_⟩
      simp only [Draft.finish] at h
      split at h
      · cases h
      · rename_i id hid
        split at h
        · cases h
        · rename_i service hservice
          split at h
          · cases h
          · rename_i action haction
            cases h
            refine ⟨?_, rfl, rfl⟩
            intro field
            cases field with
            | id => exact hid
            | service => exact hservice
            | action => exact haction
  | _ => cases h

/-- Fields that are read have a text wherever a step needs one. -/
theorem texts_of_decodeFields {fields : Json.Object} (hnames : (Fields.names fields).Nodup)
    {draft : Draft} (h : decodeFields {} fields = .ok draft) (field : StepField) {value : Json}
    (hvalue : Fields.get? fields field.name = some value) : ∃ text, value = .str text := by
  by_contra hother
  have hkind : value.text? = none := by
    cases value with
    | str text => exact absurd ⟨text, rfl⟩ hother
    | _ => rfl
  rcases decodeFields_of_not_text hnames ⟨field, value, hvalue, hkind⟩ {} with
    ⟨_, _, -, -, herror⟩
  rw [h] at herror
  cases herror

/-- Only what has the three strings is read as a step. -/
theorem spelled_of_decode {element : Json} (hnames : element.Unambiguous) {step : Step}
    (h : decode element = .ok step) : element.SpellsStep := by
  rcases draft_of_decode h with ⟨fields, draft, rfl, hdraft, hget, -, -⟩
  have hfields := hnames fields rfl
  have htexts : ∀ (field : StepField) value, Fields.get? fields field.name = some value →
      ∃ text, value = .str text :=
    fun field _ hvalue => texts_of_decodeFields hfields hdraft field hvalue
  rcases decodeFields_of_texts hfields htexts {} with ⟨result, hresult, hread⟩
  intro field
  have hsame : result = draft := Except.ok.inj (hresult.symm.trans hdraft)
  have hfound := (hread field).symm.trans (hsame ▸ hget field)
  cases hvalue : Fields.get? fields field.name with
  | none =>
    rw [hvalue] at hfound
    cases field <;> cases hfound
  | some value =>
    rcases htexts field value hvalue with ⟨text, rfl⟩
    exact ⟨text, hvalue⟩

/-- What is read from fields: the three strings are theirs, the parameters are `null` if they
    have none, and the others are kept in order. -/
structure ReadFrom (fields : Json.Object) (step : Step) : Prop where
  text : ∀ field : StepField, Fields.get? fields field.name = some (.str (step.get field))
  params : step.params = (Fields.get? fields "params").getD .null
  extra : step.extra = others fields

theorem ReadFrom.unique {fields : Json.Object} {step other : Step} (h : ReadFrom fields step)
    (hother : ReadFrom fields other) : other = step := by
  have hget : ∀ field : StepField, other.get field = step.get field := by
    intro field
    have hsame := (hother.text field).symm.trans (h.text field)
    simpa using hsame
  have hparams : other.params = step.params := hother.params.trans h.params.symm
  have hextra : other.extra = step.extra := hother.extra.trans h.extra.symm
  rcases other with ⟨id, service, action, params, extra⟩
  rcases step with ⟨id', service', action', params', extra'⟩
  simp only [mk.injEq]
  exact ⟨hget .id, hget .service, hget .action, hparams, hextra⟩

theorem unambiguous_obj {fields : Json.Object} (hnames : (Fields.names fields).Nodup) :
    (Json.obj fields).Unambiguous := by
  intro inner hinner
  cases hinner
  exact hnames

theorem readFrom_of_decode {fields : Json.Object} (hnames : (Fields.names fields).Nodup)
    {step : Step} (h : decode (.obj fields) = .ok step) : ReadFrom fields step := by
  have hunambiguous := unambiguous_obj hnames
  rcases decode_of_spelled hunambiguous (spelled_of_decode hunambiguous h) with
    ⟨other, hother, hstrings⟩
  obtain rfl : other = step := Except.ok.inj (hother.symm.trans h)
  rcases draft_of_decode h with ⟨_, draft, heq, hdraft, -, hparams, hextra⟩
  cases heq
  rcases beside_of_decodeFields hnames hdraft with ⟨hparams', hextra'⟩
  refine ⟨hstrings, ?_, ?_⟩
  · simpa [hparams'] using hparams
  · simpa [hextra'] using hextra

/-- **A step is read from its fields.** -/
theorem decode_eq_ok_iff {fields : Json.Object} (hnames : (Fields.names fields).Nodup)
    {step : Step} : decode (.obj fields) = .ok step ↔ ReadFrom fields step := by
  refine ⟨readFrom_of_decode hnames, ?_⟩
  intro h
  have hspelled : (Json.obj fields).SpellsStep := fun field => ⟨step.get field, h.text field⟩
  rcases decode_of_spelled (unambiguous_obj hnames) hspelled with ⟨other, hother, -⟩
  obtain rfl := h.unique (readFrom_of_decode hnames hother)
  exact hother

/-! ### Writing them again -/

/-- The fields that are written for a step. -/
def written (step : Step) : Json.Object :=
  ("id", .str step.id) :: ("service", .str step.service) :: ("action", .str step.action) ::
    ("params", step.params) :: step.extra

/-- The fields after are those before, with `params` added where it was left out. -/
structure Restored (before after : Json.Object) : Prop where
  nodup : (Fields.names after).Nodup
  value : ∀ name, Fields.get? after name
    = if name = "params" then some ((Fields.get? before "params").getD .null)
      else Fields.get? before name
  others : others after = others before

theorem names_written (step : Step) :
    Fields.names step.written = ownNames ++ Fields.names step.extra := rfl

theorem get?_written {step : Step} {name : String} (h : name ∉ ownNames) :
    Fields.get? step.written name = Fields.get? step.extra name := by
  simp only [ownNames, List.mem_cons, List.not_mem_nil, or_false, not_or] at h
  simp [written, Fields.get?_cons, h]

theorem others_others (fields : Json.Object) : others (others fields) = others fields := by
  simp [others, List.filter_filter]

theorem others_written (step : Step) : others step.written = others step.extra := by
  simp [written, others, ownNames]

/-- **What is written for a step is what was read.** -/
theorem restored_of_decode {fields : Json.Object} (hnames : (Fields.names fields).Nodup)
    {step : Step} (h : decode (.obj fields) = .ok step) : Restored fields step.written := by
  rcases (decode_eq_ok_iff hnames).mp h with ⟨hstrings, hparams, hextra⟩
  refine ⟨?_, ?_, ?_⟩
  · rw [names_written, hextra, List.nodup_append']
    refine ⟨by decide, hnames.sublist (List.filter_sublist.map Prod.fst), ?_⟩
    intro name hown hother
    rcases List.mem_map.mp hother with ⟨field, hfield, rfl⟩
    simp [others, hown] at hfield
  · intro name
    by_cases hown : name ∈ ownNames
    · rcases mem_ownNames.mp hown with ⟨field, rfl⟩ | rfl
      · rw [if_neg (by cases field <;> decide), hstrings field]
        cases field <;> rfl
      · rw [if_pos rfl, ← hparams]
        rfl
    · have hne : name ≠ "params" := by
        rintro rfl
        exact hown (by decide)
      rw [if_neg hne, get?_written hown, hextra, get?_others hown]
  · rw [others_written, hextra, others_others]

/-- A step that was read is read again from what is written for it. -/
theorem decode_toJson {fields : Json.Object} (hnames : (Fields.names fields).Nodup) {step : Step}
    (h : decode (.obj fields) = .ok step) : decode step.toJson = .ok step := by
  rcases (decode_eq_ok_iff hnames).mp h with ⟨-, -, hextra⟩
  have hrestored := restored_of_decode hnames h
  refine (decode_eq_ok_iff hrestored.nodup).mpr ⟨?_, rfl, ?_⟩
  · intro field
    cases field <;> rfl
  · rw [hrestored.others, hextra]

end Step

/-! ### The steps of a document -/

namespace Document

/-- The first element that is no step is the one that refuses the steps. -/
theorem first_of_decodeSteps_error {number : Nat} {elements : List Json}
    (hnames : ∀ element ∈ elements, element.Unambiguous) {failure : Failure}
    (h : decodeSteps number elements = .error failure) :
    ∃ k element error, elements[k]? = some element ∧ ¬ element.SpellsStep ∧
      (∀ earlier ∈ elements.take k, earlier.SpellsStep) ∧ Step.decode element = .error error ∧
      failure = .invalid [.stepShape (number + k) error] := by
  induction elements generalizing number with
  | nil => cases h
  | cons element rest ih =>
    rw [List.forall_mem_cons] at hnames
    rw [decodeSteps] at h
    split at h
    · rename_i error herror
      cases h
      refine ⟨0, element, error, rfl, ?_, List.forall_mem_nil _, herror, rfl⟩
      intro hspelled
      rcases Step.decode_of_spelled hnames.1 hspelled with ⟨step, hstep, -⟩
      rw [herror] at hstep
      cases hstep
    · rename_i step hstep
      split at h
      · rename_i inner hinner
        cases h
        rcases ih hnames.2 hinner with ⟨k, later, error, hk, hnot, hearlier, herror, rfl⟩
        refine ⟨k + 1, later, error, hk, hnot, ?_, herror, ?_⟩
        · rw [List.take_succ_cons, List.forall_mem_cons]
          exact ⟨Step.spelled_of_decode hnames.1 hstep, hearlier⟩
        · simp [Nat.add_assoc, Nat.add_comm 1 k]
      · cases h

theorem unambiguous_of_distinct {document : Json} (h : document.Distinct) {elements : List Json}
    (helements : document.field? "steps" = some (.arr elements)) :
    ∀ element ∈ elements, element.Unambiguous := by
  intro element hmem
  have hsteps := Json.distinct_of_field? h helements
  exact Context.nodup_of_distinct (Json.distinct_arr.mp hsteps element hmem)

theorem readSteps_of_elements {document : Json} {elements : List Json}
    (h : document.field? "steps" = some (.arr elements)) :
    readSteps document = decodeSteps 1 elements := by
  simp [readSteps, h, Json.items?]

theorem readSteps_of_no_elements {document : Json}
    (h : ∀ elements, document.field? "steps" ≠ some (.arr elements)) :
    readSteps document = .error (.invalid [.stepsNotArray]) := by
  have hnone : (document.field? "steps").bind Json.items? = none := by
    rw [Option.bind_eq_none_iff]
    intro value hvalue
    cases value with
    | arr elements => exact absurd hvalue (h elements)
    | _ => rfl
  simp [readSteps, hnone]

theorem elements_of_readSteps {document : Json} {steps : List Step}
    (h : readSteps document = .ok steps) :
    ∃ elements, document.field? "steps" = some (.arr elements) ∧
      List.Forall₂ (fun element step => Step.decode element = .ok step) elements steps := by
  by_cases harray : ∃ elements, document.field? "steps" = some (.arr elements)
  · rcases harray with ⟨elements, helements⟩
    rw [readSteps_of_elements helements] at h
    exact ⟨elements, helements, decodeSteps_eq_ok_iff.mp h⟩
  · rw [readSteps_of_no_elements (not_exists.mp harray)] at h
    cases h

/-- The step read from an element is written with the fields of the element, and is read
    again from them. -/
def Keeps (element : Json) (step : Step) : Prop :=
  ∃ before after, element = .obj before ∧ step.toJson = .obj after ∧
    Step.Restored before after ∧ Step.decode step.toJson = .ok step

theorem keeps_of_decode {element : Json} {step : Step} (hnames : element.Unambiguous)
    (h : Step.decode element = .ok step) : Keeps element step := by
  rcases Step.draft_of_decode h with ⟨fields, -, rfl, -⟩
  have hfields := hnames fields rfl
  exact ⟨fields, step.written, rfl, rfl, Step.restored_of_decode hfields h,
    Step.decode_toJson hfields h⟩

theorem kept_of_readSteps {document : Json} (h : document.Distinct) {steps : List Step}
    (hsteps : readSteps document = .ok steps) :
    ∃ elements, document.field? "steps" = some (.arr elements) ∧
      (∀ element ∈ elements, element.SpellsStep) ∧ List.Forall₂ Keeps elements steps := by
  rcases elements_of_readSteps hsteps with ⟨elements, helements, hall⟩
  refine ⟨elements, helements, ?_⟩
  have hnames := unambiguous_of_distinct h helements
  rw [← List.forall₂_and_left]
  refine ((List.forall₂_and_left _ _).mpr ⟨hnames, hall⟩).imp ?_
  rintro element step ⟨hnames, hdecode⟩
  exact ⟨Step.spelled_of_decode hnames hdecode, keeps_of_decode hnames hdecode⟩

theorem message_of_problem (problem : Problem) :
    (Failure.invalid [problem]).message = "Invalid .0n file: " ++ problem.message := by
  have hsingle : ", ".intercalate [problem.message] = problem.message :=
    String.intercalate_singleton
  exact congrArg (fun text => "Invalid .0n file: " ++ text) hsingle

/-- Where the steps cannot be read: there are none, or an element is no step.  The message
    names the first such element by its number. -/
inductive Refused (document : Json) : Failure → Prop
  | noArray {failure : Failure} :
      (∀ elements, document.field? "steps" ≠ some (.arr elements)) →
      failure = .invalid [.stepsNotArray] →
      failure.message = "Invalid .0n file: " ++ "Workflow: missing or invalid \"steps\" array" →
      Refused document failure
  | element {failure : Failure} {elements : List Json} {k : Nat} {element : Json}
      {error : Json.ShapeError} :
      document.field? "steps" = some (.arr elements) → elements[k]? = some element →
      ¬ element.SpellsStep → (∀ earlier ∈ elements.take k, earlier.SpellsStep) →
      Step.decode element = .error error → failure = .invalid [.stepShape (k + 1) error] →
      failure.message = "Invalid .0n file: " ++ ("Workflow: step " ++ toString (k + 1)
        ++ " is invalid: " ++ error.message) →
      Refused document failure

theorem refused_of_readSteps {document : Json} (h : document.Distinct) {failure : Failure}
    (hfailure : readSteps document = .error failure) : Refused document failure := by
  by_cases harray : ∃ elements, document.field? "steps" = some (.arr elements)
  · rcases harray with ⟨elements, helements⟩
    rw [readSteps_of_elements helements] at hfailure
    rcases first_of_decodeSteps_error (unambiguous_of_distinct h helements) hfailure with
      ⟨k, element, error, hk, hnot, hearlier, herror, rfl⟩
    rw [Nat.add_comm]
    exact .element helements hk hnot hearlier herror rfl (message_of_problem _)
  · rw [not_exists] at harray
    rw [readSteps_of_no_elements harray] at hfailure
    cases hfailure
    exact .noArray harray rfl (message_of_problem _)

/-- **Reading steps is exact and loses nothing.**  It succeeds if the steps are an array of
    objects with the three strings, and only then.  Otherwise the failure says that there is
    no array, or names the first element that is no such object, counted from 1.  The step
    read from an element is written with the element's fields, and reading it again gives
    the same step. -/
theorem readSteps_exact_and_lossless {document : Json} (h : document.Distinct) :
    ((∃ steps, readSteps document = .ok steps) ↔
      ∃ elements, document.field? "steps" = some (.arr elements) ∧
        ∀ element ∈ elements, element.SpellsStep) ∧
    (∀ failure, readSteps document = .error failure → Refused document failure) ∧
    ∀ steps, readSteps document = .ok steps →
      ∃ elements, document.field? "steps" = some (.arr elements) ∧
        List.Forall₂ Keeps elements steps := by
  refine ⟨⟨?_, ?_⟩, fun failure => refused_of_readSteps h, ?_⟩
  · rintro ⟨steps, hsteps⟩
    rcases kept_of_readSteps h hsteps with ⟨elements, helements, hspelled, -⟩
    exact ⟨elements, helements, hspelled⟩
  · rintro ⟨elements, helements, hspelled⟩
    rcases decodeSteps_of_spelled (unambiguous_of_distinct h helements) hspelled 1 with
      ⟨steps, hsteps, -⟩
    exact ⟨steps, (readSteps_of_elements helements).trans hsteps⟩
  · intro steps hsteps
    rcases kept_of_readSteps h hsteps with ⟨elements, helements, -, hkept⟩
    exact ⟨elements, helements, hkept⟩

/-- A step without parameters, its fields in an order of their own. -/
def unordered : Json :=
  .obj [("steps", .arr [.obj [("retry", Json.int 2), ("action", .str "get"), ("note", .null),
    ("id", .str "a"), ("service", .str "s")]])]

theorem readSteps_exact_and_lossless_unordered :
    unordered.Distinct ∧ ∃ step, readSteps unordered = .ok [step] ∧
      step.toJson = .obj [("id", .str "a"), ("service", .str "s"), ("action", .str "get"),
        ("params", .null), ("retry", Json.int 2), ("note", .null)] ∧
      Step.decode step.toJson = .ok step := by
  have hdistinct : unordered.Distinct := by decide
  refine ⟨hdistinct, ⟨"a", "s", "get", .null, [("retry", Json.int 2), ("note", .null)]⟩, rfl, rfl, ?_⟩
  rcases readSteps_exact_and_lossless hdistinct with ⟨-, -, hkept⟩
  rcases hkept _ rfl with ⟨elements, -, hall⟩
  rcases List.forall₂_cons_right_iff.mp hall with ⟨element, _, hkeeps, -⟩
  rcases hkeeps with ⟨before, after, -, -, -, hdecode⟩
  exact hdecode

end Document
end FlowDocs
