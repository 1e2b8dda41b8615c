/-
  FlowDocs/Proofs/Document/Creating.lean
  ======================================
  **When a new document is valid.**

  Creation fills in what the options leave out, and the report on the new document asks
  for what its kind needs.  The two meet in `Supplies`: some defaults satisfy the report,
  as the way to authenticate does, and others stand for something missing, as the empty
  service of a connection and the empty steps of a workflow do.  A default never hides an
  option that counts as absent.
-/
import FlowDocs.Document.Creation
import FlowDocs.Proofs.Document.Rules
import FlowDocs.Proofs.Document.Steps

namespace FlowDocs

theorem absent_str_iff {text : String} : Absent (some (.str text)) ↔ text = "" := by
  constructor
  · intro h
    cases h with
    | empty => rfl
  · rintro rfl
    exact .empty

theorem not_absent_obj (fields : Json.Object) : ¬ Absent (some (.obj fields)) :=
  isPresent_iff.mp rfl

/-- There is one warning. -/
theorem Warning.ne_nil_iff {warnings : List Warning} :
    warnings ≠ [] ↔ .snapshotTarget ∈ warnings := by
  cases warnings with
  | nil => simp
  | cons warning rest =>
    cases warning
    simp

/-! ### Options and their defaults -/

namespace CreationOptions

/-- What the options have to say for a new document of the kind to be valid, beside its
    version. -/
def Supplies (options : CreationOptions) : Kind → Prop
  | .connection =>
    (∃ service, options.service = some service ∧ service ≠ "") ∧ options.authType ≠ some ""
  | .workflow =>
    ∃ steps, options.steps = some steps ∧ steps ≠ [] ∧
      ∀ step ∈ steps, ∀ field : StepField, ¬ Absent (step.field? field.name)
  | .snapshot => ∀ components, options.components = some components → ¬ Absent (some components)
  | .config => True
  | .execution => True

variable {option : Option String}

theorem getD_ne_empty_iff {default : String} (h : default ≠ "") :
    option.getD default ≠ "" ↔ option ≠ some "" := by
  cases option with
  | none => simpa using h
  | some text => simp

theorem getD_empty_ne_empty_iff : option.getD "" ≠ "" ↔ ∃ text, option = some text ∧ text ≠ "" := by
  cases option with
  | none => simp
  | some text => simp

/-- The default of a part is an object, so the part is absent only where the option is. -/
theorem absent_getD_iff {part : Option Json} {fields : Json.Object} :
    Absent (some (part.getD (.obj fields))) ↔ ∃ value, part = some value ∧ Absent (some value) := by
  cases part with
  | none => simp [not_absent_obj]
  | some value => simp

end CreationOptions

namespace Document

open CreationOptions

variable {document : Json}

/-! ### Bodies without a problem -/

theorem if_present_eq_nil_iff {value : Option Json} {raised : Problem} :
    (if isPresent value then [] else [raised]) = [] ↔ ¬ Absent value := by
  rw [← isPresent_iff]
  cases isPresent value <;> simp

theorem connectionProblems_eq_nil_iff {auth : Json} (hauth : document.field? "auth" = some auth) :
    connectionProblems document = [] ↔
      ¬ Absent (document.field? "service") ∧ ¬ Absent (some auth) ∧
        ¬ Absent (auth.field? "type") := by
  simp only [connectionProblems, hauth, List.append_eq_nil_iff, if_present_eq_nil_iff,
    ← @isPresent_iff (some auth), ← @isPresent_iff (auth.field? "type")]
  refine and_congr_right fun _ => ?_
  cases isPresent (some auth) <;> cases isPresent (auth.field? "type") <;> simp

theorem snapshotProblems_eq_nil_iff :
    snapshotProblems document = [] ↔ ¬ Absent (document.field? "components") :=
  if_present_eq_nil_iff

/-! ### A new document -/

section

variable (kind : Kind) (options : CreationOptions) (now : String)

theorem hasEnvelope_create :
    HasEnvelope (create kind options now) (newEnvelope kind options now) :=
  ⟨rfl, not_absent_obj _⟩

theorem knownKind_newEnvelope : knownKind (newEnvelope kind options now) = some kind :=
  knownKind_eq_some_iff.mpr rfl

theorem connectionProblems_create_eq_nil_iff :
    connectionProblems (create .connection options now) = [] ↔ options.Supplies .connection := by
  have hauth : (create .connection options now).field? "auth" = some (.obj
      [("type", .str (options.authType.getD "api_key")),
       ("credentials", options.credentials.getD (.obj []))]) := rfl
  have hservice : ¬ Absent ((create .connection options now).field? "service") ↔
      ∃ service, options.service = some service ∧ service ≠ "" :=
    absent_str_iff.not.trans getD_empty_ne_empty_iff
  have htype : ¬ Absent (some (.str (options.authType.getD "api_key"))) ↔
      options.authType ≠ some "" :=
    absent_str_iff.not.trans (getD_ne_empty_iff (by decide))
  rw [connectionProblems_eq_nil_iff hauth, hservice]
  refine and_congr_right fun _ => ?_
  exact (and_iff_right (not_absent_obj _)).trans htype

theorem workflowProblems_create_eq_nil_iff :
    workflowProblems (create .workflow options now) = [] ↔ options.Supplies .workflow := by
  have hsteps : (create .workflow options now).field? "steps" =
      some (.arr (options.steps.getD [])) := rfl
  rw [workflowProblems_eq_nil_iff, hsteps]
  simp only [isPresent_iff, Option.some.injEq, Json.arr.injEq, exists_eq_left', Supplies]
  cases options.steps with
  | none => simp
  | some steps => simp

theorem snapshotProblems_create_eq_nil_iff :
    snapshotProblems (create .snapshot options now) = [] ↔ options.Supplies .snapshot := by
  have hcomponents : (create .snapshot options now).field? "components" =
      some (options.components.getD (.obj [])) := rfl
  rw [snapshotProblems_eq_nil_iff, hcomponents, absent_getD_iff]
  simp only [not_exists, not_and, Supplies]

/-- The body of a new document lacks nothing exactly where the options supply it. -/
theorem bodyProblems_create_eq_nil_iff :
    bodyProblems (create kind options now) (some kind) = [] ↔ options.Supplies kind := by
  cases kind with
  | connection => exact connectionProblems_create_eq_nil_iff options now
  | workflow => exact workflowProblems_create_eq_nil_iff options now
  | snapshot => exact snapshotProblems_create_eq_nil_iff options now
  | config => exact iff_of_true rfl trivial
  | execution => exact iff_of_true rfl trivial

theorem not_absent_kind : ¬ Absent ((newEnvelope kind options now).field? "type") := by
  have hname : kind.name ≠ "" := by cases kind <;> decide
  exact absent_str_iff.not.mpr hname

theorem not_absent_version_iff :
    ¬ Absent ((newEnvelope kind options now).field? "version") ↔ options.version ≠ some "" :=
  absent_str_iff.not.trans (getD_ne_empty_iff (by decide))

theorem valid_create_iff :
    (validate (create kind options now)).valid = true ↔
      options.version ≠ some "" ∧ options.Supplies kind := by
  rw [valid_iff, validate_of_envelope (hasEnvelope_create kind options now)]
  simp only [List.append_eq_nil_iff, if_present_eq_nil_iff, not_absent_kind, not_false_iff, true_and,
    not_absent_version_iff, knownKind_newEnvelope, bodyProblems_create_eq_nil_iff]

/-- The only warning is about a target that was given, and counts as absent. -/
theorem warnings_create_ne_nil_iff :
    (validate (create kind options now)).warnings ≠ [] ↔
      kind = .snapshot ∧ ∃ target, options.target = some target ∧ Absent (some target) := by
  rw [validate_of_envelope (hasEnvelope_create kind options now), knownKind_newEnvelope,
    Warning.ne_nil_iff, mem_bodyWarnings, Option.some_inj]
  refine and_congr_right ?_
  rintro rfl
  exact absent_getD_iff

/-- A new document that is valid is parsed, and its envelope says what the options did. -/
theorem parse_create (h : (validate (create kind options now)).valid = true) :
    parse (create kind options now) =
      .ok { kind := kind.name
            version := options.version.getD "1.0.0"
            name := some (options.name.getD "")
            description := some (options.description.getD "")
            data := create kind options now } := by
  have hthere := hasEnvelope_create kind options now
  have hkind : (validate (create kind options now)).kind = some kind.name := by
    rw [validate_of_envelope hthere]
    exact congrArg (Option.map envelopeText) (filter_present (not_absent_kind kind options now))
  have hversion : (validate (create kind options now)).version
      = some (options.version.getD "1.0.0") := by
    have hpresent := (not_absent_version_iff kind options now).mpr
      ((valid_create_iff kind options now).mp h).1
    rw [validate_of_envelope hthere]
    exact congrArg (Option.map envelopeText) (filter_present hpresent)
  rw [parse, h, hkind, hversion]
  rfl

end

/-- **New documents.**  A new document is valid if its version is not given as the empty
    text and the options supply what its kind needs, and only then.  The report warns
    exactly about a snapshot whose target was given and counts as absent.  A valid one is
    parsed, with its kind, its version and its description; what was not given is
    the default version and empty texts. -/
theorem create_valid_iff_supplied (kind : Kind) (options : CreationOptions) (now : String) :
    ((validate (create kind options now)).valid = true ↔
      options.version ≠ some "" ∧ options.Supplies kind) ∧
    ((validate (create kind options now)).warnings ≠ [] ↔
      kind = .snapshot ∧ ∃ target, options.target = some target ∧ Absent (some target)) ∧
    ((validate (create kind options now)).valid = true →
      parse (create kind options now) =
        .ok { kind := kind.name
              version := options.version.getD "1.0.0"
              name := some (options.name.getD "")
              description := some (options.description.getD "")
              data := create kind options now }) :=
  ⟨valid_create_iff kind options now, warnings_create_ne_nil_iff kind options now,
    parse_create kind options now⟩

/-- Without options, a workflow lacks its steps; a snapshot lacks nothing. -/
example : (validate (create .workflow {} "")).valid = false ∧
    (validate (create .snapshot {} "")).valid = true := by
  decide

end Document
end FlowDocs
