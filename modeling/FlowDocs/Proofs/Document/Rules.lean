/-
  FlowDocs/Proofs/Document/Rules.lean
  ===================================
  **A report lists the violated rules, each once and in order.**

  `Violates` says of each problem, in terms of the document alone, when the rule behind it
  is broken: presence is said with `Absent`, kinds by their names, steps by their place.
  `Problem.rank` is the order in which the rules stand.  A report has a problem exactly for
  each violated rule, in the order of the ranks; so a document without a violated rule is
  valid, and it is parsed exactly then.  The text of a problem names the step and the field
  it is about, and what a report names is missing from the document.
-/
import FlowDocs.Document.Parsed
import FlowDocs.Proofs.Numeric.Zero

namespace FlowDocs

/-! ### Presence -/

/-- What counts as absent. -/
inductive Absent : Option Json → Prop where
  | missing : Absent none
  | null : Absent (some .null)
  | no : Absent (some (.bool false))
  | zero {n : Number} : n.IsZero → Absent (some (.num n))
  | empty : Absent (some (.str ""))

theorem isPresent_eq_false_iff {value : Option Json} : isPresent value = false ↔ Absent value := by
  constructor
  · intro h
    cases value with
    | none => exact .missing
    | some value =>
      cases value with
      | null => exact .null
      | bool b =>
        obtain rfl : b = false := h
        exact .no
      | num n =>
        have hzero : (n.toFloat == 0.0) = true := by simpa [isPresent] using h
        exact .zero ((Numeric.toFloat_beq_zero_iff n).mp hzero)
      | str text =>
        obtain rfl : text = "" := by simpa [isPresent] using h
        exact .empty
      | arr items => cases h
      | obj fields => cases h
  · intro h
    cases h with
    | missing => rfl
    | null => rfl
    | no => rfl
    | zero hzero => rw [isPresent, (Numeric.toFloat_beq_zero_iff _).mpr hzero, Bool.not_true]
    | empty => rfl

theorem isPresent_iff {value : Option Json} : isPresent value = true ↔ ¬ Absent value := by
  rw [← isPresent_eq_false_iff, Bool.not_eq_false]

/-! ### The text of a kind or a version -/

namespace Json

theorem integerText_ne_nil (n : Int) : integerText n ≠ [] := by
  rw [integerText]
  split
  · exact List.cons_ne_nil _ _
  · exact Nat.toDigits_ne_nil

theorem doubleText_ne_nil (x : Float) : doubleText x ≠ [] := by
  have hplain : ∀ ds whole, plainText ds whole ≠ [] := by
    intro ds whole
    rw [plainText]
    split
    · exact List.cons_ne_nil _ _
    · split <;> simp
  have hscientific : ∀ ds power, scientificText ds power ≠ [] := by
    intro ds power
    rw [scientificText]
    simp
  rw [doubleText]
  split
  · exact List.cons_ne_nil _ _
  · dsimp only
    split
    · exact List.cons_ne_nil _ _
    · split
      · exact List.cons_ne_nil _ _
      · split
        · exact hplain _ _
        · exact hscientific _ _

theorem compactText_ne_nil (value : Json) : value.compactText ≠ [] := by
  cases value with
  | null => exact List.cons_ne_nil _ _
  | bool b => cases b <;> exact List.cons_ne_nil _ _
  | num n =>
    cases n with
    | integer n => exact integerText_ne_nil n
    | double x => exact doubleText_ne_nil x
  | str text => exact List.cons_ne_nil _ _
  | arr items => cases items <;> exact List.cons_ne_nil _ _
  | obj fields => cases fields <;> exact List.cons_ne_nil _ _

end Json

/-- What counts as present has a text. -/
theorem envelopeText_ne_empty {value : Json} (h : ¬ Absent (some value)) :
    envelopeText value ≠ "" := by
  have hcompact : value.compact ≠ "" := by
    rw [Json.compact, Ne, String.ofList_eq_empty_iff]
    exact value.compactText_ne_nil
  cases value with
  | str text =>
    rintro rfl
    exact h .empty
  | _ => exact hcompact

theorem filter_present {value : Json} (h : ¬ Absent (some value)) :
    (some value).filter (fun value => isPresent (some value)) = some value := by
  rw [Option.filter_some, if_pos (isPresent_iff.mpr h)]

theorem isSome_filter_present (value : Option Json) :
    (value.filter fun value => isPresent (some value)).isSome = isPresent value := by
  cases value with
  | none => rfl
  | some value => cases h : isPresent (some value) <;> simp [h]

theorem Kind.name_of_ofName? {name : String} {kind : Kind} (h : Kind.ofName? name = some kind) :
    name = kind.name := by
  have hname := List.find?_some h
  exact (of_decide_eq_true hname).symm

theorem Json.text?_eq_some_iff {value : Json} {text : String} :
    value.text? = some text ↔ value = .str text := by
  cases value <;> simp [Json.text?]

/-! ### What problems name -/

namespace Problem

/-- The step a problem is about; others are about the whole document. -/
def step? : Problem → Option Nat
  | .stepField step _ | .stepShape step _ => some step
  | _ => none

/-- Where in the document, or in the step, the thing is that a problem is about: the names
    of the fields that lead there. -/
def place : Problem → List String
  | .missingHeader => ["$0n"]
  | .missingKind => ["$0n", "type"]
  | .missingVersion => ["$0n", "version"]
  | .connectionService => ["service"]
  | .connectionAuth => ["auth"]
  | .connectionAuthType => ["auth", "type"]
  | .readSteps | .stepsNotArray => ["steps"]
  | .stepField _ field => [field.name]
  | .stepShape _ (.missing field) => [field]
  | .snapshotComponents => ["components"]
  | .stepShape _ (.mismatch _ _) | .stepShape _ (.surplus _) | .unreadable _ | .malformed _
  | .other _ => []

/-- The part of a document a problem is about: a step, or all of it. -/
def subject? (problem : Problem) (document : Json) : Option Json :=
  match problem.step? with
  | none => some document
  | some step =>
    ((document.field? "steps").bind Json.items?).bind fun elements => elements[step - 1]?

/-- What stands at the place of a problem. -/
def found? (problem : Problem) (subject : Json) : Option Json :=
  problem.place.foldl (fun found name => found.bind fun value => value.field? name) (some subject)

theorem infix_between (front name back : String) :
    name.toList <:+: (front ++ name ++ back).toList :=
  ⟨front.toList, back.toList, by simp⟩

theorem infix_behind (front text : String) : text.toList <:+: (front ++ text).toList := by
  rw [String.toList_append]
  exact (List.suffix_append _ _).isInfix

theorem infix_missing (number name : String) :
    ("step " ++ number ++ " ").toList
      <:+: ("Workflow: step " ++ number ++ " missing \"" ++ name ++ "\"").toList :=
  ⟨"Workflow: ".toList, ("missing \"" ++ name ++ "\"").toList, by simp⟩

theorem infix_invalid (number reason : String) :
    ("step " ++ number ++ " ").toList
      <:+: ("Workflow: step " ++ number ++ " is invalid: " ++ reason).toList :=
  ⟨"Workflow: ".toList, ("is invalid: " ++ reason).toList, by simp⟩

/-- **A problem names what it is about.**  Its text holds the number of the step and the
    names that lead to the field, with points between them. -/
theorem message_names (problem : Problem) :
    (∀ step ∈ problem.step?,
      ("step " ++ toString step ++ " ").toList <:+: problem.message.toList) ∧
    (".".intercalate problem.place).toList <:+: problem.message.toList := by
  cases problem with
  | stepField step field =>
    refine ⟨?_, infix_between _ field.name _⟩
    rintro _ ⟨⟩
    exact infix_missing (toString step) field.name
  | stepShape step error =>
    refine ⟨?_, ?_⟩
    · rintro _ ⟨⟩
      exact infix_invalid (toString step) error.message
    · cases error with
      | missing name =>
        have hreason : name.toList <:+: ("missing field `" ++ name ++ "`").toList :=
          infix_between _ name _
        exact hreason.trans (infix_behind _ _)
      | mismatch found expected => exact List.nil_infix
      | surplus length => exact List.nil_infix
  | unreadable cause => exact ⟨by rintro _ ⟨⟩, List.nil_infix⟩
  | malformed error => exact ⟨by rintro _ ⟨⟩, List.nil_infix⟩
  | other text => exact ⟨by rintro _ ⟨⟩, List.nil_infix⟩
  | _ => exact ⟨by rintro _ ⟨⟩, by decide⟩

end Problem

/-! ### The rules -/

namespace StepField

def rank : StepField → Nat
  | .id => 0
  | .service => 1
  | .action => 2

end StepField

/-- The place of a rule in the order of a report.  Problems of files and of the steps as
    they are read are in no report on a document. -/
def Problem.rank : Problem → List Nat
  | .missingHeader => [0]
  | .missingKind => [1]
  | .missingVersion => [2]
  | .connectionService => [3]
  | .connectionAuth => [4]
  | .connectionAuthType => [5]
  | .readSteps => [6]
  | .stepField step field => [7, step, field.rank]
  | .snapshotComponents => [8]
  | .stepsNotArray | .stepShape _ _ | .unreadable _ | .malformed _ | .other _ => [9]

namespace Document

/-- The document has an envelope that counts as present. -/
def HasEnvelope (document envelope : Json) : Prop :=
  document.field? "$0n" = some envelope ∧ ¬ Absent (some envelope)

/-- The envelope names exactly this kind. -/
def OfKind (document : Json) (name : String) : Prop :=
  ∃ envelope, HasEnvelope document envelope ∧ envelope.field? "type" = some (.str name)

/-- The rules for documents, each with the problem it raises when it is violated. -/
inductive Violates (document : Json) : Problem → Prop where
  | header : Absent (document.field? "$0n") → Violates document .missingHeader
  | kind {envelope : Json} : HasEnvelope document envelope → Absent (envelope.field? "type") →
      Violates document .missingKind
  | version {envelope : Json} : HasEnvelope document envelope →
      Absent (envelope.field? "version") → Violates document .missingVersion
  | service : OfKind document "connection" → Absent (document.field? "service") →
      Violates document .connectionService
  | auth : OfKind document "connection" → Absent (document.field? "auth") →
      Violates document .connectionAuth
  | authType {auth : Json} : OfKind document "connection" → document.field? "auth" = some auth →
      ¬ Absent (some auth) → Absent (auth.field? "type") → Violates document .connectionAuthType
  | steps : OfKind document "workflow" →
      (∀ first rest, document.field? "steps" ≠ some (.arr (first :: rest))) →
      Violates document .readSteps
  | stepField {elements : List Json} {element : Json} {i : Nat} (field : StepField) :
      OfKind document "workflow" → document.field? "steps" = some (.arr elements) →
      elements[i]? = some element → Absent (element.field? field.name) →
      Violates document (.stepField (i + 1) field)
  | components : OfKind document "snapshot" → Absent (document.field? "components") →
      Violates document .snapshotComponents

variable {document : Json} {problem : Problem}

/-- Each problem stands before every later one. -/
def InOrder (problems : List Problem) : Prop := problems.Pairwise fun a b => a.rank < b.rank

/-! ### Steps -/

theorem stepProblem_eq_some_iff {number : Nat} {step : Json} {field : StepField} :
    (if isPresent (step.field? field.name) then none else some (Problem.stepField number field))
      = some problem ↔ Absent (step.field? field.name) ∧ problem = .stepField number field := by
  rw [Option.ite_none_left_eq_some, Bool.not_eq_true, isPresent_eq_false_iff, Option.some_inj,
    eq_comm (a := problem)]

theorem mem_stepProblems {number : Nat} {step : Json} :
    problem ∈ stepProblems number step ↔
      ∃ field, Absent (step.field? field.name) ∧ problem = .stepField number field := by
  have hall : ∀ field, field ∈ StepField.all := by
    intro field
    cases field <;> decide
  simp only [stepProblems, List.mem_filterMap, stepProblem_eq_some_iff, hall, true_and]

theorem inOrder_stepProblems (number : Nat) (step : Json) : InOrder (stepProblems number step) := by
  have hall : StepField.all.Pairwise fun a b => a.rank < b.rank := by decide
  rw [InOrder, stepProblems, List.pairwise_filterMap]
  refine hall.imp ?_
  intro a b hlt problem hproblem later hlater
  obtain ⟨-, rfl⟩ := stepProblem_eq_some_iff.mp hproblem
  obtain ⟨-, rfl⟩ := stepProblem_eq_some_iff.mp hlater
  simp [Problem.rank, List.cons_lt_cons_iff, hlt]

theorem mem_stepsProblems {number : Nat} {steps : List Json} :
    problem ∈ stepsProblems number steps ↔
      ∃ i step, steps[i]? = some step ∧
        ∃ field, Absent (step.field? field.name) ∧ problem = .stepField (number + i) field := by
  induction steps generalizing number with
  | nil => simp [stepsProblems]
  | cons step rest ih =>
    rw [stepsProblems, List.mem_append, mem_stepProblems, ih]
    constructor
    · rintro (⟨field, habsent, hproblem⟩ | ⟨i, later, hi, field, habsent, hproblem⟩)
      · exact ⟨0, step, rfl, field, habsent, hproblem⟩
      · refine ⟨i + 1, later, hi, field, habsent, ?_⟩
        rw [hproblem, Nat.add_right_comm, Nat.add_assoc]
    · rintro ⟨i, found, hi, field, habsent, hproblem⟩
      cases i with
      | zero =>
        obtain rfl : step = found := Option.some.inj hi
        exact Or.inl ⟨field, habsent, hproblem⟩
      | succ i =>
        refine Or.inr ⟨i, found, hi, field, habsent, ?_⟩
        rw [hproblem, Nat.add_right_comm, Nat.add_assoc]

theorem inOrder_stepsProblems (number : Nat) (steps : List Json) :
    InOrder (stepsProblems number steps) := by
  induction steps generalizing number with
  | nil => exact List.Pairwise.nil
  | cons step rest ih =>
    rw [stepsProblems, InOrder, List.pairwise_append]
    refine ⟨inOrder_stepProblems number step, ih (number + 1), ?_⟩
    intro a ha b hb
    obtain ⟨field, -, rfl⟩ := mem_stepProblems.mp ha
    obtain ⟨i, later, -, field', -, rfl⟩ := mem_stepsProblems.mp hb
    have hlt : number < number + 1 + i := by omega
    simp [Problem.rank, List.cons_lt_cons_iff, hlt]

/-! ### Bodies -/

theorem mem_if_present {value : Option Json} {raised : Problem} :
    problem ∈ (if isPresent value then [] else [raised]) ↔ Absent value ∧ problem = raised := by
  rw [← isPresent_eq_false_iff]
  cases isPresent value <;> simp

theorem mem_connectionProblems :
    problem ∈ connectionProblems document ↔
      (Absent (document.field? "service") ∧ problem = .connectionService) ∨
      (Absent (document.field? "auth") ∧ problem = .connectionAuth) ∨
      ∃ auth, document.field? "auth" = some auth ∧ ¬ Absent (some auth) ∧
        Absent (auth.field? "type") ∧ problem = .connectionAuthType := by
  rw [connectionProblems, List.mem_append, mem_if_present]
  refine or_congr_right ?_
  cases document.field? "auth" with
  | none => simp [Absent.missing]
  | some auth =>
    simp only [Option.some.injEq, exists_eq_left', ← isPresent_eq_false_iff]
    cases isPresent (some auth) <;> cases isPresent (auth.field? "type") <;> simp

theorem mem_workflowProblems :
    problem ∈ workflowProblems document ↔
      ((∀ first rest, document.field? "steps" ≠ some (.arr (first :: rest))) ∧
        problem = .readSteps) ∨
      ∃ elements i element field, document.field? "steps" = some (.arr elements) ∧
        elements[i]? = some element ∧ Absent (element.field? field.name) ∧
        problem = .stepField (i + 1) field := by
  cases hsteps : document.field? "steps" with
  | none => simp [workflowProblems, hsteps]
  | some steps =>
    cases steps with
    | arr elements =>
      cases elements with
      | nil => simp [workflowProblems, hsteps, Json.items?]
      | cons first rest =>
        have hproblems : workflowProblems document = stepsProblems 1 (first :: rest) := by
          rw [workflowProblems, hsteps]
          rfl
        simp [hproblems, mem_stepsProblems, Nat.add_comm 1]
    | _ => simp [workflowProblems, hsteps, Json.items?]

theorem mem_snapshotProblems :
    problem ∈ snapshotProblems document ↔
      Absent (document.field? "components") ∧ problem = .snapshotComponents := by
  rw [snapshotProblems, mem_if_present]

theorem mem_bodyProblems {kind : Option Kind} :
    problem ∈ bodyProblems document kind ↔
      (kind = some .connection ∧ problem ∈ connectionProblems document) ∨
      (kind = some .workflow ∧ problem ∈ workflowProblems document) ∨
      (kind = some .snapshot ∧ problem ∈ snapshotProblems document) := by
  cases kind with
  | none => simp [bodyProblems]
  | some kind => cases kind <;> simp [bodyProblems]

theorem inOrder_if_present (value : Option Json) (raised : Problem) :
    InOrder (if isPresent value then [] else [raised]) := by
  split
  · exact List.Pairwise.nil
  · exact List.pairwise_singleton _ raised

theorem inOrder_connectionProblems (document : Json) : InOrder (connectionProblems document) := by
  rw [connectionProblems]
  cases document.field? "auth" with
  | none => dsimp only; split_ifs <;> (rw [InOrder]; decide)
  | some auth => dsimp only; split_ifs <;> (rw [InOrder]; decide)

theorem inOrder_workflowProblems (document : Json) : InOrder (workflowProblems document) := by
  rw [workflowProblems]
  split
  · exact List.pairwise_singleton _ _
  · exact List.pairwise_singleton _ _
  · exact inOrder_stepsProblems 1 _

theorem inOrder_bodyProblems (document : Json) (kind : Option Kind) :
    InOrder (bodyProblems document kind) := by
  cases kind with
  | none => exact List.Pairwise.nil
  | some kind =>
    cases kind with
    | connection => exact inOrder_connectionProblems document
    | workflow => exact inOrder_workflowProblems document
    | snapshot => exact inOrder_if_present _ _
    | config => exact List.Pairwise.nil
    | execution => exact List.Pairwise.nil

/-- The problems of a body come after those of the envelope. -/
theorem rank_of_mem_bodyProblems {kind : Option Kind}
    (h : problem ∈ bodyProblems document kind) : [2] < problem.rank := by
  rcases mem_bodyProblems.mp h with ⟨-, h⟩ | ⟨-, h⟩ | ⟨-, h⟩
  · rcases mem_connectionProblems.mp h with ⟨-, rfl⟩ | ⟨-, rfl⟩ | ⟨auth, -, -, -, rfl⟩
    · decide
    · decide
    · decide
  · rcases mem_workflowProblems.mp h with ⟨-, rfl⟩ | ⟨elements, i, element, field, -, -, -, rfl⟩
    · decide
    · simp [Problem.rank, List.cons_lt_cons_iff]
  · obtain ⟨-, rfl⟩ := mem_snapshotProblems.mp h
    decide

/-! ### The envelope -/

theorem envelope?_eq_some_iff {envelope : Json} :
    envelope? document = some envelope ↔ HasEnvelope document envelope := by
  rw [envelope?, Option.filter_eq_some_iff, isPresent_iff]
  rfl

theorem envelope?_eq_none_iff : envelope? document = none ↔ Absent (document.field? "$0n") := by
  rw [envelope?, envelopeName, Option.filter_eq_none_iff]
  cases document.field? "$0n" with
  | none => simp [Absent.missing]
  | some envelope => simp [isPresent_eq_false_iff]

/-- The kind a document is checked for. -/
def knownKind (envelope : Json) : Option Kind :=
  ((envelope.field? "type").bind Json.text?).bind Kind.ofName?

theorem knownKind_eq_some_iff {envelope : Json} {kind : Kind} :
    knownKind envelope = some kind ↔ envelope.field? "type" = some (.str kind.name) := by
  constructor
  · intro h
    obtain ⟨name, htext, hname⟩ := Option.bind_eq_some_iff.mp h
    obtain ⟨value, hvalue, hvalueText⟩ := Option.bind_eq_some_iff.mp htext
    obtain rfl := Kind.name_of_ofName? hname
    rw [hvalue, Json.text?_eq_some_iff.mp hvalueText]
  · intro h
    rw [knownKind, h]
    exact Kind.ofName?_name kind

theorem ofKind_iff {envelope : Json} (h : HasEnvelope document envelope) (kind : Kind) :
    OfKind document kind.name ↔ knownKind envelope = some kind := by
  rw [knownKind_eq_some_iff]
  constructor
  · rintro ⟨other, hother, htype⟩
    obtain rfl : other = envelope := Option.some.inj (hother.1.symm.trans h.1)
    exact htype
  · exact fun htype => ⟨envelope, h, htype⟩

theorem validate_of_header (h : Absent (document.field? "$0n")) :
    validate document = { problems := [.missingHeader] } := by
  rw [validate, envelope?_eq_none_iff.mpr h]

theorem validate_of_envelope {envelope : Json} (h : HasEnvelope document envelope) :
    validate document =
      { problems :=
          (if isPresent (envelope.field? "type") then [] else [.missingKind]) ++
          (if isPresent (envelope.field? "version") then [] else [.missingVersion]) ++
          bodyProblems document (knownKind envelope)
        warnings := bodyWarnings document (knownKind envelope)
        kind := ((envelope.field? "type").filter fun value => isPresent (some value)).map
          envelopeText
        version := ((envelope.field? "version").filter fun value => isPresent (some value)).map
          envelopeText } := by
  rw [validate, envelope?_eq_some_iff.mpr h]
  simp only [isSome_filter_present]
  rfl

theorem Violates.eq_header (h : Violates document problem) (hheader : Absent (document.field? "$0n")) :
    problem = .missingHeader := by
  have hnone : ∀ envelope, ¬ HasEnvelope document envelope := by
    intro envelope henvelope
    rw [henvelope.1] at hheader
    exact henvelope.2 hheader
  have hkind : ∀ name, ¬ OfKind document name := fun name ⟨envelope, henvelope, _⟩ =>
    hnone envelope henvelope
  cases h with
  | header => rfl
  | kind h => exact absurd h (hnone _)
  | version h => exact absurd h (hnone _)
  | service h => exact absurd h (hkind _)
  | auth h => exact absurd h (hkind _)
  | authType h => exact absurd h (hkind _)
  | steps h => exact absurd h (hkind _)
  | stepField _ h => exact absurd h (hkind _)
  | components h => exact absurd h (hkind _)

/-- **There is a problem in the report exactly for each violated rule.** -/
theorem mem_problems_iff : problem ∈ (validate document).problems ↔ Violates document problem := by
  cases henvelope : envelope? document with
  | none =>
    have hheader := envelope?_eq_none_iff.mp henvelope
    rw [validate_of_header hheader, List.mem_singleton]
    constructor
    · rintro rfl
      exact .header hheader
    · exact fun h => h.eq_header hheader
  | some envelope =>
    have hthere := envelope?_eq_some_iff.mp henvelope
    have hconnection := ofKind_iff hthere .connection
    have hworkflow := ofKind_iff hthere .workflow
    have hsnapshot := ofKind_iff hthere .snapshot
    rw [validate_of_envelope hthere, List.mem_append, List.mem_append, mem_if_present,
      mem_if_present, mem_bodyProblems, ← hconnection, ← hworkflow, ← hsnapshot,
      mem_connectionProblems, mem_workflowProblems, mem_snapshotProblems]
    constructor
    · rintro ((⟨habsent, rfl⟩ | ⟨habsent, rfl⟩) | ⟨hkind, hproblem⟩ | ⟨hkind, hproblem⟩ |
        ⟨hkind, habsent, rfl⟩)
      · exact .kind hthere habsent
      · exact .version hthere habsent
      · rcases hproblem with ⟨habsent, rfl⟩ | ⟨habsent, rfl⟩ | ⟨auth, hauth, hpresent, habsent, rfl⟩
        · exact .service hkind habsent
        · exact .auth hkind habsent
        · exact .authType hkind hauth hpresent habsent
      · rcases hproblem with ⟨hempty, rfl⟩ | ⟨elements, i, element, field, hsteps, hi, habsent, rfl⟩
        · exact .steps hkind hempty
        · exact .stepField field hkind hsteps hi habsent
      · exact .components hkind habsent
    · intro h
      have hsame : ∀ other, HasEnvelope document other → other = envelope :=
        fun other hother => Option.some.inj (hother.1.symm.trans hthere.1)
      cases h with
      | header habsent =>
        rw [hthere.1] at habsent
        exact absurd habsent hthere.2
      | kind hother habsent =>
        obtain rfl := hsame _ hother
        exact Or.inl (Or.inl ⟨habsent, rfl⟩)
      | version hother habsent =>
        obtain rfl := hsame _ hother
        exact Or.inl (Or.inr ⟨habsent, rfl⟩)
      | service hkind habsent => exact Or.inr (Or.inl ⟨hkind, Or.inl ⟨habsent, rfl⟩⟩)
      | auth hkind habsent => exact Or.inr (Or.inl ⟨hkind, Or.inr (Or.inl ⟨habsent, rfl⟩)⟩)
      | authType hkind hauth hpresent habsent =>
        exact Or.inr (Or.inl ⟨hkind, Or.inr (Or.inr ⟨_, hauth, hpresent, habsent, rfl⟩)⟩)
      | steps hkind hempty => exact Or.inr (Or.inr (Or.inl ⟨hkind, Or.inl ⟨hempty, rfl⟩⟩))
      | stepField field hkind hsteps hi habsent =>
        exact Or.inr (Or.inr (Or.inl ⟨hkind, Or.inr ⟨_, _, _, field, hsteps, hi, habsent, rfl⟩⟩))
      | components hkind habsent => exact Or.inr (Or.inr (Or.inr ⟨hkind, habsent, rfl⟩))

/-- A field inside another is looked up in what is there. -/
theorem absent_bind {value : Option Json} {inner : Json} {name : String} (h : value = some inner)
    (habsent : Absent (inner.field? name)) :
    Absent (value.bind fun value => value.field? name) := by
  rw [h]
  exact habsent

/-- **What a report names is missing.**  Every problem in a report names a field, and
    nothing that counts as present stands there; only the steps of a workflow may be there
    and not be an array with an element. -/
theorem missing_of_mem_problems (h : problem ∈ (validate document).problems) :
    problem.place ≠ [] ∧ ∃ subject, problem.subject? document = some subject ∧
      (Absent (problem.found? subject) ∨ problem = .readSteps ∧
        ∀ first rest, problem.found? subject ≠ some (.arr (first :: rest))) := by
  cases mem_problems_iff.mp h with
  | header habsent => exact ⟨by decide, document, rfl, Or.inl habsent⟩
  | kind hthere habsent =>
    exact ⟨by decide, document, rfl, Or.inl (absent_bind hthere.1 habsent)⟩
  | version hthere habsent =>
    exact ⟨by decide, document, rfl, Or.inl (absent_bind hthere.1 habsent)⟩
  | service _ habsent => exact ⟨by decide, document, rfl, Or.inl habsent⟩
  | auth _ habsent => exact ⟨by decide, document, rfl, Or.inl habsent⟩
  | authType _ hauth _ habsent =>
    exact ⟨by decide, document, rfl, Or.inl (absent_bind hauth habsent)⟩
  | steps _ hempty => exact ⟨by decide, document, rfl, Or.inr ⟨rfl, hempty⟩⟩
  | @stepField elements element i field _ hsteps hi habsent =>
    have hsubject : (Problem.stepField (i + 1) field).subject? document = some element := by
      simp only [Problem.subject?, Problem.step?, hsteps]
      exact hi
    exact ⟨List.cons_ne_nil _ _, element, hsubject, Or.inl habsent⟩
  | components _ habsent => exact ⟨by decide, document, rfl, Or.inl habsent⟩

theorem inOrder_problems (document : Json) : InOrder (validate document).problems := by
  cases henvelope : envelope? document with
  | none =>
    rw [validate_of_header (envelope?_eq_none_iff.mp henvelope)]
    exact List.pairwise_singleton _ _
  | some envelope =>
    rw [validate_of_envelope (envelope?_eq_some_iff.mp henvelope), InOrder, List.pairwise_append,
      List.pairwise_append]
    refine ⟨⟨inOrder_if_present _ _, inOrder_if_present _ _, ?_⟩, inOrder_bodyProblems _ _, ?_⟩
    · intro a ha b hb
      obtain ⟨-, rfl⟩ := mem_if_present.mp ha
      obtain ⟨-, rfl⟩ := mem_if_present.mp hb
      decide
    · intro a ha b hb
      have hlast : a.rank ≤ [2] := by
        rcases List.mem_append.mp ha with ha | ha
        · obtain ⟨-, rfl⟩ := mem_if_present.mp ha
          decide
        · obtain ⟨-, rfl⟩ := mem_if_present.mp ha
          decide
      exact lt_of_le_of_lt hlast (rank_of_mem_bodyProblems hb)

/-! ### Warnings, validity, parsing -/

theorem mem_bodyWarnings {warning : Warning} {kind : Option Kind} :
    warning ∈ bodyWarnings document kind ↔
      kind = some .snapshot ∧ Absent (document.field? "target") := by
  cases warning with
  | snapshotTarget =>
    rw [← isPresent_eq_false_iff]
    cases kind with
    | none => simp [bodyWarnings]
    | some kind =>
      cases kind <;> cases h : isPresent (document.field? "target") <;> simp [bodyWarnings, h]

theorem length_bodyWarnings_le (document : Json) (kind : Option Kind) :
    (bodyWarnings document kind).length ≤ 1 := by
  rw [bodyWarnings.eq_def]
  split
  · split <;> simp
  · simp

theorem mem_warnings_iff {warning : Warning} :
    warning ∈ (validate document).warnings ↔
      OfKind document "snapshot" ∧ Absent (document.field? "target") := by
  cases henvelope : envelope? document with
  | none =>
    have hheader := envelope?_eq_none_iff.mp henvelope
    rw [validate_of_header hheader, List.mem_nil_iff, false_iff]
    rintro ⟨⟨envelope, hthere, -⟩, -⟩
    rw [hthere.1] at hheader
    exact hthere.2 hheader
  | some envelope =>
    have hthere := envelope?_eq_some_iff.mp henvelope
    rw [validate_of_envelope hthere, mem_bodyWarnings, ← ofKind_iff hthere]
    rfl

theorem length_warnings_le (document : Json) : (validate document).warnings.length ≤ 1 := by
  cases henvelope : envelope? document with
  | none =>
    rw [validate_of_header (envelope?_eq_none_iff.mp henvelope)]
    exact Nat.zero_le 1
  | some envelope =>
    rw [validate_of_envelope (envelope?_eq_some_iff.mp henvelope)]
    exact length_bodyWarnings_le _ _

theorem valid_iff : (validate document).valid = true ↔ (validate document).problems = [] :=
  List.isEmpty_iff

/-- A valid document has an envelope whose kind and version count as present. -/
theorem exists_envelope_of_valid (h : (validate document).valid = true) :
    ∃ envelope kind version, HasEnvelope document envelope ∧
      envelope.field? "type" = some kind ∧ ¬ Absent (some kind) ∧
      envelope.field? "version" = some version ∧ ¬ Absent (some version) := by
  have hnone : ∀ problem, ¬ Violates document problem := by
    intro problem hproblem
    rw [← mem_problems_iff, valid_iff.mp h] at hproblem
    exact List.not_mem_nil hproblem
  cases henvelope : envelope? document with
  | none => exact absurd (.header (envelope?_eq_none_iff.mp henvelope)) (hnone _)
  | some envelope =>
    have hthere := envelope?_eq_some_iff.mp henvelope
    have hkind : ¬ Absent (envelope.field? "type") := fun habsent =>
      hnone _ (.kind hthere habsent)
    have hversion : ¬ Absent (envelope.field? "version") := fun habsent =>
      hnone _ (.version hthere habsent)
    cases hkindField : envelope.field? "type" with
    | none => exact absurd (hkindField ▸ .missing) hkind
    | some kind =>
      cases hversionField : envelope.field? "version" with
      | none => exact absurd (hversionField ▸ .missing) hversion
      | some version =>
        exact ⟨envelope, kind, version, hthere, hkindField, hkindField ▸ hkind, hversionField,
          hversionField ▸ hversion⟩

/-- The kind and the version of a valid document stand in its report, and neither is empty. -/
theorem named_of_valid (h : (validate document).valid = true) :
    ∃ kind version, (validate document).kind = some kind ∧ kind ≠ "" ∧
      (validate document).version = some version ∧ version ≠ "" := by
  obtain ⟨envelope, kind, version, hthere, hkind, hkindPresent, hversion, hversionPresent⟩ :=
    exists_envelope_of_valid h
  refine ⟨envelopeText kind, envelopeText version, ?_, envelopeText_ne_empty hkindPresent, ?_,
    envelopeText_ne_empty hversionPresent⟩
  · rw [validate_of_envelope hthere, hkind, filter_present hkindPresent]
    rfl
  · rw [validate_of_envelope hthere, hversion, filter_present hversionPresent]
    rfl

/-- **A report is exact.**  It has one problem for each violated rule and nothing else, in the
    order of the rules, and a warning exactly for a snapshot without a target.  The document
    is valid if there is no problem.  Then the report has a kind and a version, neither of
    them empty, and the document is parsed to itself with these two; a document with
    problems is refused with all of them, in the same order. -/
theorem report_lists_violations (document : Json) :
    (∀ problem, problem ∈ (validate document).problems ↔ Violates document problem) ∧
    (validate document).problems.Pairwise (fun a b => a.rank < b.rank) ∧
    (∀ warning, warning ∈ (validate document).warnings ↔
      OfKind document "snapshot" ∧ Absent (document.field? "target")) ∧
    (validate document).warnings.length ≤ 1 ∧
    ((validate document).valid = true ↔ (validate document).problems = []) ∧
    ((validate document).valid = true →
      ∃ kind version, (validate document).kind = some kind ∧ kind ≠ "" ∧
        (validate document).version = some version ∧ version ≠ "" ∧
        ∃ parsed, parse document = .ok parsed ∧ parsed.data = document ∧
          parsed.kind = kind ∧ parsed.version = version) ∧
    ((validate document).valid = false →
      parse document = .error (.invalid (validate document).problems)) := by
  refine ⟨fun problem => mem_problems_iff, inOrder_problems document,
    fun warning => mem_warnings_iff, length_warnings_le document, valid_iff, ?_, ?_⟩
  · intro hvalid
    obtain ⟨kind, version, hkind, hkindText, hversion, hversionText⟩ := named_of_valid hvalid
    refine ⟨kind, version, hkind, hkindText, hversion, hversionText, ?_⟩
    rw [parse, hvalid, hkind, hversion]
    exact ⟨_, rfl, rfl, rfl, rfl⟩
  · intro hinvalid
    rw [parse, hinvalid]
    rfl

/-- Every step is checked for every field, also one that is no object. -/
example : (validate (.obj [("$0n", .obj [("type", .str "workflow"), ("version", Json.int 1)]),
      ("steps", .arr [.obj [("id", .str "a"), ("service", .str ""), ("action", Json.int 0)],
        .str "b"])])).problems.map Problem.message
    = ["Workflow: step 1 missing \"service\"", "Workflow: step 1 missing \"action\"",
       "Workflow: step 2 missing \"id\"", "Workflow: step 2 missing \"service\"",
       "Workflow: step 2 missing \"action\""] := by
  decide +kernel

end Document
end FlowDocs
