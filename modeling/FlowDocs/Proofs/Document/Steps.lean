/-
  FlowDocs/Proofs/Document/Steps.lean
  ===================================
  **Which valid workflows can be run.**

  Two readers look at the steps of a workflow.  Validation asks that every step has
  an id, a service and an action that count as present; reading the steps asks that
  these are strings.  A number, a `true`, an array or an object is present and is no
  string, so a valid workflow can be run exactly if none of the three is of such a
  kind, and what refuses it otherwise is the kind of the first one that is.
-/
import FlowDocs.Document.Parsed
import FlowDocs.Proofs.Workflow.Course

namespace FlowDocs

/-- Every name of an object stands once. -/
def Json.Unambiguous (value : Json) : Prop :=
  ∀ fields ∈ value.fields?, (Fields.names fields).Nodup

/-- The three fields of a step are strings. -/
def Json.SpellsStep (value : Json) : Prop :=
  ∀ field : StepField, ∃ text, value.field? field.name = some (.str text)

/-- What a step has under a field. -/
def Step.get (step : Step) : StepField → String
  | .id => step.id
  | .service => step.service
  | .action => step.action

theorem StepField.name_inj {field other : StepField} : field.name = other.name ↔ field = other := by
  cases field <;> cases other <;> decide

/-! ### One step -/

namespace Step

def Draft.get (draft : Draft) : StepField → Option String
  | .id => draft.id
  | .service => draft.service
  | .action => draft.action

def Draft.put (draft : Draft) (field : StepField) (text : String) : Draft :=
  match field with
  | .id => { draft with id := some text }
  | .service => { draft with service := some text }
  | .action => { draft with action := some text }

theorem Draft.get_put (draft : Draft) (field : StepField) (text : String) (other : StepField) :
    (draft.put field text).get other = if other = field then some text else draft.get other := by
  cases field <;> cases other <;> rfl

theorem decodeFields_text (draft : Draft) (field : StepField) (text : String)
    (rest : List (String × Json)) :
    decodeFields draft ((field.name, .str text) :: rest)
      = decodeFields (draft.put field text) rest := by
  cases field <;> rfl

theorem decodeFields_not_text (draft : Draft) (field : StepField) {value : Json}
    (h : value.text? = none) (rest : List (String × Json)) :
    decodeFields draft ((field.name, value) :: rest) = .error (.mismatch value .string) := by
  have hstring : Json.asString value = .error (.mismatch value .string) := by
    cases value with
    | str text => cases h
    | _ => rfl
  cases field <;> simp [decodeFields, StepField.name, hstring]

/-- A field with any other name leaves the three fields as they are. -/
theorem decodeFields_other (draft : Draft) {name : String}
    (h : ∀ field : StepField, name ≠ field.name) (value : Json) (rest : List (String × Json)) :
    ∃ next : Draft, decodeFields draft ((name, value) :: rest) = decodeFields next rest ∧
      ∀ field, next.get field = draft.get field := by
  have hid : name ≠ "id" := h .id
  have hservice : name ≠ "service" := h .service
  have haction : name ≠ "action" := h .action
  rw [decodeFields, if_neg hid, if_neg hservice, if_neg haction]
  by_cases hparams : name = "params"
  · rw [if_pos hparams]
    exact ⟨_, rfl, fun field => by cases field <;> rfl⟩
  · rw [if_neg hparams]
    exact ⟨_, rfl, fun field => by cases field <;> rfl⟩

/-- Fields whose steps' names have strings are read, and the strings are kept. -/
theorem decodeFields_of_texts {fields : List (String × Json)} (hnames : (Fields.names fields).Nodup)
    (htexts : ∀ (field : StepField) value, Fields.get? fields field.name = some value →
      ∃ text, value = .str text) (draft : Draft) :
    ∃ result, decodeFields draft fields = .ok result ∧
      ∀ field : StepField, result.get field
        = ((Fields.get? fields field.name).bind Json.text?).or (draft.get field) := by
  induction fields generalizing draft with
  | nil => exact ⟨draft, rfl, fun field => rfl⟩
  | cons entry rest ih =>
    obtain ⟨name, value⟩ := entry
    obtain ⟨hname, hrest⟩ := List.nodup_cons.mp hnames
    have htail : ∀ (field : StepField) inner, Fields.get? rest field.name = some inner →
        ∃ text, inner = .str text := by
      intro field inner hinner
      apply htexts field
      rw [Fields.get?_cons, if_neg, hinner]
      rintro rfl
      have hmem : field.name ∈ Fields.names rest := by
        by_contra hmem
        rw [Fields.get?_eq_none_iff.mpr hmem] at hinner
        cases hinner
      exact hname hmem
    by_cases hfield : ∃ field : StepField, name = field.name
    · obtain ⟨field, rfl⟩ := hfield
      obtain ⟨text, rfl⟩ := htexts field value (by rw [Fields.get?_cons, if_pos rfl])
      obtain ⟨result, hresult, hget⟩ := ih hrest htail (draft.put field text)
      refine ⟨result, ?_, ?_⟩
      · rw [decodeFields_text, hresult]
      · intro other
        rw [hget other, Draft.get_put, Fields.get?_cons]
        by_cases hother : other = field
        · subst hother
          have hnone : Fields.get? rest other.name = none := Fields.get?_eq_none_iff.mpr hname
          simp [hnone, Json.text?]
        · have hne : ¬ other.name = field.name := fun h => hother (StepField.name_inj.mp h)
          rw [if_neg hother, if_neg hne]
    · rw [not_exists] at hfield
      obtain ⟨next, hnext, hsame⟩ := decodeFields_other draft hfield value rest
      obtain ⟨result, hresult, hget⟩ := ih hrest htail next
      refine ⟨result, ?_, ?_⟩
      · rw [hnext, hresult]
      · intro field
        rw [hget field, hsame field, Fields.get?_cons, if_neg (fun h => hfield field h.symm)]

/-- The first of the three fields that is no string refuses the fields. -/
theorem decodeFields_of_not_text {fields : List (String × Json)}
    (hnames : (Fields.names fields).Nodup)
    (h : ∃ (field : StepField) (value : Json),
      Fields.get? fields field.name = some value ∧ value.text? = none) (draft : Draft) :
    ∃ (field : StepField) (found : Json), Fields.get? fields field.name = some found ∧
      found.text? = none ∧ decodeFields draft fields = .error (.mismatch found .string) := by
  induction fields generalizing draft with
  | nil =>
    obtain ⟨field, value, hvalue, -⟩ := h
    cases hvalue
  | cons entry rest ih =>
    obtain ⟨name, value⟩ := entry
    obtain ⟨hname, hrest⟩ := List.nodup_cons.mp hnames
    -- what the induction hypothesis finds in the rest is found behind the first field too
    have hbehind : ∀ next : Draft,
        decodeFields draft ((name, value) :: rest) = decodeFields next rest →
        (∃ (field : StepField) (inner : Json),
          Fields.get? rest field.name = some inner ∧ inner.text? = none) →
        ∃ (field : StepField) (found : Json),
          Fields.get? ((name, value) :: rest) field.name = some found ∧ found.text? = none ∧
            decodeFields draft ((name, value) :: rest) = .error (.mismatch found .string) := by
      intro next hnext hinner
      obtain ⟨field, found, hfound, hkind, herror⟩ := ih hrest hinner next
      refine ⟨field, found, ?_, hkind, ?_⟩
      · rw [Fields.get?_cons, if_neg, hfound]
        rintro rfl
        rw [Fields.get?_eq_none_iff.mpr hname] at hfound
        cases hfound
      · rw [hnext, herror]
    obtain ⟨field, inner, hinner, hkind⟩ := h
    rw [Fields.get?_cons] at hinner
    by_cases hstep : ∃ other : StepField, name = other.name
    · obtain ⟨other, rfl⟩ := hstep
      cases htext : value.text? with
      | none =>
        refine ⟨other, value, ?_, htext, decodeFields_not_text draft other htext rest⟩
        rw [Fields.get?_cons, if_pos rfl]
      | some text =>
        have hvalue : value = .str text := by
          cases value with
          | str other => rw [Option.some.inj htext]
          | _ => cases htext
        subst hvalue
        apply hbehind (draft.put other text) (decodeFields_text draft other text rest)
        by_cases hsame : field.name = other.name
        · rw [if_pos hsame, Option.some.injEq] at hinner
          rw [← hinner] at hkind
          cases hkind
        · rw [if_neg hsame] at hinner
          exact ⟨field, inner, hinner, hkind⟩
    · rw [not_exists] at hstep
      obtain ⟨next, hnext, -⟩ := decodeFields_other draft hstep value rest
      apply hbehind next hnext
      rw [if_neg (fun h => hstep field h.symm)] at hinner
      exact ⟨field, inner, hinner, hkind⟩

theorem decode_of_spelled {element : Json} (hnames : element.Unambiguous)
    (h : element.SpellsStep) :
    ∃ step, decode element = .ok step ∧
      ∀ field : StepField, element.field? field.name = some (.str (step.get field)) := by
  cases element with
  | obj fields =>
    have htexts : ∀ (field : StepField) value, Fields.get? fields field.name = some value →
        ∃ text, value = .str text := by
      intro field value hvalue
      obtain ⟨text, htext⟩ := h field
      exact ⟨text, Option.some.inj (hvalue.symm.trans htext)⟩
    obtain ⟨result, hresult, hget⟩ := decodeFields_of_texts (hnames fields rfl) htexts {}
    have hfields : ∀ field : StepField, ∃ text, Fields.get? fields field.name = some (.str text) ∧
        result.get field = some text := by
      intro field
      obtain ⟨text, htext⟩ := h field
      have hfound : Fields.get? fields field.name = some (.str text) := htext
      refine ⟨text, hfound, ?_⟩
      rw [hget field, hfound]
      rfl
    obtain ⟨id, hid, hid'⟩ := hfields .id
    obtain ⟨service, hservice, hservice'⟩ := hfields .service
    obtain ⟨action, haction, haction'⟩ := hfields .action
    change result.id = some id at hid'
    change result.service = some service at hservice'
    change result.action = some action at haction'
    refine ⟨⟨id, service, action, result.params.getD .null, result.extra⟩, ?_, ?_⟩
    · simp only [decode, Json.asRecord, hresult, Draft.finish, hid', hservice', haction']
    · intro field
      cases field with
      | id => exact hid
      | service => exact hservice
      | action => exact haction
  | _ =>
    obtain ⟨text, htext⟩ := h .id
    cases htext

/-- Where all three fields are there, the reason to refuse is that one is no string. -/
theorem decode_of_not_spelled {element : Json} (hnames : element.Unambiguous)
    (hpresent : ∀ field : StepField, ∃ value, element.field? field.name = some value)
    (h : ¬ element.SpellsStep) :
    ∃ (field : StepField) (found : Json), element.field? field.name = some found ∧
      found.text? = none ∧ decode element = .error (.mismatch found .string) := by
  cases element with
  | obj fields =>
    have hother : ∃ (field : StepField) (value : Json),
        Fields.get? fields field.name = some value ∧ value.text? = none := by
      rw [Json.SpellsStep, not_forall] at h
      obtain ⟨field, hfield⟩ := h
      obtain ⟨value, hvalue⟩ := hpresent field
      refine ⟨field, value, hvalue, ?_⟩
      cases value with
      | str text => exact absurd ⟨text, hvalue⟩ hfield
      | _ => rfl
    obtain ⟨field, found, hfound, hkind, herror⟩ :=
      decodeFields_of_not_text (hnames fields rfl) hother {}
    refine ⟨field, found, hfound, hkind, ?_⟩
    simp only [decode, Json.asRecord, herror]
  | _ =>
    obtain ⟨value, hvalue⟩ := hpresent .id
    cases hvalue

end Step

/-! ### All steps -/

namespace Document

theorem decodeSteps_eq_ok_iff {number : Nat} {elements : List Json} {steps : List Step} :
    decodeSteps number elements = .ok steps ↔
      List.Forall₂ (fun element step => Step.decode element = .ok step) elements steps := by
  induction elements generalizing number steps with
  | nil => cases steps <;> simp [decodeSteps]
  | cons element rest ih =>
    rw [decodeSteps]
    cases hstep : Step.decode element with
    | error e => cases steps <;> simp [hstep]
    | ok step =>
      have hmore : ∀ more, decodeSteps (number + 1) rest = .ok more ↔ _ := fun _ => ih
      dsimp only
      cases hrest : decodeSteps (number + 1) rest with
      | error failure => cases steps <;> simp [hstep, ← hmore, hrest]
      | ok more => cases steps <;> simp [hstep, ← hmore, hrest]

/-- The first element that is no step refuses the steps, by its number. -/
theorem decodeSteps_of_error (number : Nat) {k : Nat} {elements : List Json} {element : Json}
    {error : Json.ShapeError} (hk : elements[k]? = some element)
    (herror : Step.decode element = .error error)
    (hearlier : ∀ earlier ∈ elements.take k, ∃ step, Step.decode earlier = .ok step) :
    decodeSteps number elements = .error (.invalid [.stepShape (number + k) error]) := by
  induction elements generalizing number k with
  | nil => cases hk
  | cons first rest ih =>
    cases k with
    | zero =>
      cases hk
      rw [decodeSteps, herror]
      rfl
    | succ k =>
      rw [List.take_succ_cons, List.forall_mem_cons] at hearlier
      obtain ⟨⟨step, hstep⟩, hrest⟩ := hearlier
      have hmore := ih (number + 1) hk hrest
      rw [decodeSteps, hstep]
      dsimp only
      rw [hmore, Nat.add_right_comm, Nat.add_assoc]

theorem decodeSteps_of_spelled {elements : List Json}
    (hnames : ∀ element ∈ elements, element.Unambiguous)
    (h : ∀ element ∈ elements, element.SpellsStep) (number : Nat) :
    ∃ steps, decodeSteps number elements = .ok steps ∧
      List.Forall₂ (fun element step =>
        ∀ field : StepField, element.field? field.name = some (.str (step.get field)))
        elements steps := by
  induction elements generalizing number with
  | nil => exact ⟨[], rfl, .nil⟩
  | cons element rest ih =>
    rw [List.forall_mem_cons] at hnames h
    obtain ⟨step, hstep, hfields⟩ := Step.decode_of_spelled hnames.1 h.1
    obtain ⟨steps, hsteps, hall⟩ := ih hnames.2 h.2 (number + 1)
    refine ⟨step :: steps, ?_, .cons hfields hall⟩
    rw [decodeSteps_eq_ok_iff] at hsteps ⊢
    exact .cons hstep hsteps

/-! ### What validation asks for -/

theorem stepProblems_eq_nil_iff {number : Nat} {element : Json} :
    stepProblems number element = [] ↔
      ∀ field : StepField, isPresent (element.field? field.name) = true := by
  have hall : ∀ field : StepField, field ∈ StepField.all := by
    intro field
    cases field <;> decide
  rw [stepProblems, List.filterMap_eq_nil_iff]
  constructor
  · intro h field
    have hfield := h field (hall field)
    by_contra habsent
    simp [habsent] at hfield
  · intro h field _
    rw [if_pos (h field)]

theorem stepsProblems_eq_nil_iff {number : Nat} {elements : List Json} :
    stepsProblems number elements = [] ↔
      ∀ element ∈ elements, ∀ field : StepField,
        isPresent (element.field? field.name) = true := by
  induction elements generalizing number with
  | nil => simp [stepsProblems]
  | cons element rest ih =>
    rw [stepsProblems, List.append_eq_nil_iff, stepProblems_eq_nil_iff, ih, List.forall_mem_cons]

theorem workflowProblems_eq_nil_iff {document : Json} :
    workflowProblems document = [] ↔
      ∃ elements, document.field? "steps" = some (.arr elements) ∧ elements ≠ [] ∧
        ∀ element ∈ elements, ∀ field : StepField,
          isPresent (element.field? field.name) = true := by
  have hitems : ∀ elements, (document.field? "steps").bind Json.items? = some elements ↔
      document.field? "steps" = some (.arr elements) := by
    intro elements
    rcases document.field? "steps" with _ | value
    · exact ⟨nofun, nofun⟩
    · cases value with
      | arr items => simp [Json.items?]
      | _ => exact ⟨nofun, nofun⟩
  rw [workflowProblems]
  cases hsteps : (document.field? "steps").bind Json.items? with
  | none =>
    simp only [List.cons_ne_nil, false_iff, not_exists]
    rintro elements ⟨helements, -⟩
    rw [(hitems elements).mpr helements] at hsteps
    cases hsteps
  | some elements =>
    have harray := (hitems elements).mp hsteps
    cases elements with
    | nil => simp [harray]
    | cons element rest =>
      dsimp only
      rw [stepsProblems_eq_nil_iff, harray]
      simp

/-- A workflow is valid only if it lacks nothing that a workflow needs. -/
theorem workflowProblems_of_valid {document : Json}
    (hkind : (document.field? envelopeName).bind (fun envelope => envelope.field? "type")
      = some (.str "workflow"))
    (hvalid : (validate document).valid = true) : workflowProblems document = [] := by
  obtain ⟨envelope, henvelope, htype⟩ := Option.bind_eq_some_iff.mp hkind
  have hpresent : isPresent (some envelope) = true := by
    cases envelope with
    | obj fields => rfl
    | _ => cases htype
  have hfound : envelope? document = some envelope := by
    rw [envelope?, henvelope, Option.filter_some, if_pos hpresent]
  have hknown : ((envelope.field? "type").bind Json.text?).bind Kind.ofName? = some .workflow := by
    rw [htype]
    exact Kind.ofName?_name .workflow
  rw [validate, hfound, Report.valid, List.isEmpty_iff] at hvalid
  dsimp only at hvalid
  rw [hknown, List.append_eq_nil_iff] at hvalid
  exact hvalid.2

theorem valid_of_parse {document : Json} {parsed : Parsed} (h : parse document = .ok parsed) :
    (validate document).valid = true := by
  rw [parse] at h
  dsimp only at h
  split at h
  · assumption
  · cases h

/-! ### Valid workflows -/

theorem allowed_cons_ne_nil (policy : FailurePolicy) (turn : Turn) (rest : List Turn) :
    Workflow.allowed policy (turn :: rest) ≠ [] := by
  cases policy with
  | stop =>
    rw [Workflow.allowed, Workflow.upToFailure]
    cases turn.failure? <;> simp
  | «continue» => exact List.cons_ne_nil turn rest

theorem calls_ne_nil {σ : Type} {document : Json} {step : Step} {rest : List Step}
    (h : readSteps document = .ok (step :: rest)) (executor : Executor σ) (supply : Supply)
    (context : Context) (state : σ) :
    (Workflow.run executor supply document context state).calls ≠ [] := by
  rw [Workflow.run_eq h, Workflow.course]
  dsimp only
  rw [Ne, List.map_eq_nil_iff]
  exact allowed_cons_ne_nil _ _ _

/-- **A valid workflow can be run exactly if its steps are spelled in strings.**  Its steps
    are there, and each has an id, a service and an action that count as present.  If all of
    these are strings, there is one step for each element, in order, with the element's id,
    service and action, and a run comes to call the executor.  Otherwise the first element
    with another kind of value there refuses the workflow, and a run makes no call. -/
theorem readSteps_of_valid {document : Json}
    (hkind : (document.field? envelopeName).bind (fun envelope => envelope.field? "type")
      = some (.str "workflow"))
    (hvalid : (validate document).valid = true ∨ ∃ parsed, parse document = .ok parsed)
    (hnames : ∀ elements, document.field? "steps" = some (.arr elements) →
      ∀ element ∈ elements, element.Unambiguous) :
    ∃ elements, document.field? "steps" = some (.arr elements) ∧ elements ≠ [] ∧
      (∀ element ∈ elements, ∀ field : StepField,
        isPresent (element.field? field.name) = true) ∧
      ((∀ element ∈ elements, element.SpellsStep) →
        ∃ steps, readSteps document = .ok steps ∧
          List.Forall₂ (fun element step =>
            element.field? "id" = some (.str step.id) ∧
            element.field? "service" = some (.str step.service) ∧
            element.field? "action" = some (.str step.action)) elements steps ∧
          ∀ {σ : Type} (executor : Executor σ) (supply : Supply) (context : Context) (state : σ),
            (Workflow.run executor supply document context state).calls ≠ []) ∧
      (∀ k element, elements[k]? = some element → ¬ element.SpellsStep →
        (∀ earlier ∈ elements.take k, earlier.SpellsStep) →
        ∃ (field : StepField) (found : Json), element.field? field.name = some found ∧
          found.text? = none ∧
          let refusal := Failure.invalid [.stepShape (k + 1) (.mismatch found .string)]
          readSteps document = .error refusal ∧
          ∀ {σ : Type} (executor : Executor σ) (supply : Supply) (context : Context) (state : σ),
            Workflow.run executor supply document context state = ⟨[], state, .error refusal⟩) := by
  have hreport : (validate document).valid = true := by
    rcases hvalid with hvalid | ⟨parsed, hparsed⟩
    · exact hvalid
    · exact valid_of_parse hparsed
  obtain ⟨elements, helements, hne, hpresent⟩ :=
    workflowProblems_eq_nil_iff.mp (workflowProblems_of_valid hkind hreport)
  have hunambiguous := hnames elements helements
  have hread : readSteps document = decodeSteps 1 elements := by
    rw [readSteps, helements]
    rfl
  refine ⟨elements, helements, hne, hpresent, ?_, ?_⟩
  · intro hspelled
    obtain ⟨steps, hsteps, hall⟩ := decodeSteps_of_spelled hunambiguous hspelled 1
    rw [← hread] at hsteps
    refine ⟨steps, hsteps, hall.imp fun element step h => ⟨h .id, h .service, h .action⟩, ?_⟩
    intro σ executor supply context state
    cases hall with
    | nil => exact absurd rfl hne
    | cons _ _ => exact calls_ne_nil hsteps executor supply context state
  · intro k element hk hother hearlier
    have hmem : element ∈ elements := List.mem_of_getElem? hk
    have hthere : ∀ field : StepField, ∃ value, element.field? field.name = some value := by
      intro field
      have hfield := hpresent element hmem field
      cases hvalue : element.field? field.name with
      | none =>
        rw [hvalue] at hfield
        cases hfield
      | some value => exact ⟨value, rfl⟩
    obtain ⟨field, found, hfound, hkindOf, herror⟩ :=
      Step.decode_of_not_spelled (hunambiguous element hmem) hthere hother
    have hdecoded : ∀ earlier ∈ elements.take k, ∃ step, Step.decode earlier = .ok step := by
      intro earlier hmemEarlier
      obtain ⟨step, hstep, -⟩ := Step.decode_of_spelled
        (hunambiguous earlier (List.mem_of_mem_take hmemEarlier)) (hearlier earlier hmemEarlier)
      exact ⟨step, hstep⟩
    have hrefused := decodeSteps_of_error 1 hk herror hdecoded
    rw [Nat.add_comm 1 k, ← hread] at hrefused
    refine ⟨field, found, hfound, hkindOf, hrefused, ?_⟩
    intro σ executor supply context state
    exact Workflow.run_of_error hrefused executor supply context state

/-- A workflow of two steps, the second of which has the given id. -/
def secondNamed (id : Json) : Json :=
  .obj [("$0n", .obj [("type", .str "workflow"), ("version", .str "1.0.0")]),
    ("steps", .arr
      [.obj [("id", .str "a"), ("service", .str "s"), ("action", .str "get")],
       .obj [("id", id), ("service", .str "s"), ("action", .str "put")]])]

theorem unambiguous_secondNamed (id : Json) :
    ∀ elements, (secondNamed id).field? "steps" = some (.arr elements) →
      ∀ element ∈ elements, element.Unambiguous := by
  intro elements helements element hmem fields hfields
  cases helements
  simp only [List.mem_cons, List.not_mem_nil, or_false] at hmem
  rcases hmem with rfl | rfl
  · cases hfields
    simp [Fields.names]
  · cases hfields
    simp [Fields.names]

/-- A second step with a string for its id is read, and one with a number refuses the
    workflow. -/
theorem readSteps_of_valid_pair :
    (∃ steps, readSteps (secondNamed (.str "b")) = .ok steps ∧
      steps.map Step.id = ["a", "b"]) ∧
    ∃ found, readSteps (secondNamed (Json.int 5))
      = .error (.invalid [.stepShape 2 (.mismatch found .string)]) := by
  constructor
  · obtain ⟨elements, helements, -, -, hspelled, -⟩ := @readSteps_of_valid
      (secondNamed (.str "b")) rfl (Or.inl rfl) (unambiguous_secondNamed (.str "b"))
    cases helements
    have hall : ∀ element ∈ [Json.obj [("id", .str "a"), ("service", .str "s"),
        ("action", .str "get")], Json.obj [("id", .str "b"), ("service", .str "s"),
        ("action", .str "put")]], element.SpellsStep := by
      simp only [List.forall_mem_cons]
      refine ⟨?_, ?_, nofun⟩
      · intro field
        cases field <;> exact ⟨_, rfl⟩
      · intro field
        cases field <;> exact ⟨_, rfl⟩
    obtain ⟨steps, hsteps, hpairs, -⟩ := hspelled hall
    refine ⟨steps, hsteps, ?_⟩
    obtain ⟨first, more, hfirst, hmore, rfl⟩ := List.forall₂_cons_left_iff.mp hpairs
    obtain ⟨second, rest, hsecond, hrest, rfl⟩ := List.forall₂_cons_left_iff.mp hmore
    cases hrest
    have hfirstId : Json.str "a" = .str first.id := Option.some.inj hfirst.1
    have hsecondId : Json.str "b" = .str second.id := Option.some.inj hsecond.1
    rw [Json.str.injEq] at hfirstId hsecondId
    simp [← hfirstId, ← hsecondId]
  · obtain ⟨elements, helements, -, -, -, hrefused⟩ := @readSteps_of_valid
      (secondNamed (Json.int 5)) rfl (Or.inl rfl) (unambiguous_secondNamed (Json.int 5))
    cases helements
    have hother : ¬ (Json.obj [("id", Json.int 5), ("service", .str "s"),
        ("action", .str "put")]).SpellsStep := by
      intro h
      obtain ⟨text, htext⟩ := h .id
      cases htext
    have hearlier : (Json.obj [("id", .str "a"), ("service", .str "s"),
        ("action", .str "get")]).SpellsStep := by
      intro field
      cases field <;> exact ⟨_, rfl⟩
    obtain ⟨field, found, -, -, hread, -⟩ := hrefused 1 _ rfl hother (by simpa using hearlier)
    exact ⟨found, hread⟩

/-- A valid workflow that is refused: the id of its second step is present, and no string. -/
theorem valid_workflow_refused :
    (validate (secondNamed (Json.int 5))).valid = true ∧
      (∃ parsed, parse (secondNamed (Json.int 5)) = .ok parsed) ∧
      (secondNamed (Json.int 5)).field? "$0n"
        = some (.obj [("type", .str "workflow"), ("version", .str "1.0.0")]) ∧
      readSteps (secondNamed (Json.int 5))
        = .error (.invalid [.stepShape 2 (.mismatch (Json.int 5) .string)]) ∧
      (Workflow.run Workflow.warmingUp (.constant ⟨"noon", "id"⟩) (secondNamed (Json.int 5)) {}
          true).result
        = .error (.invalid [.stepShape 2 (.mismatch (Json.int 5) .string)]) :=
  ⟨rfl, ⟨_, rfl⟩, rfl, rfl, rfl⟩

end Document
end FlowDocs
