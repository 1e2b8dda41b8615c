/-
  FlowDocs/Proofs/Workflow/Addressing.lean
  ========================================
  **Which outputs a later step can name.**

  The output of a step stands under the step's id, and a later step finds it by
  writing the id between braces, provided that what is written there is read as the
  id and nothing else.  The id has to be a name for the lexer and a single segment of
  a path, and it must not mean something already: the names of values and of builtins
  do when they stand alone, and `env` and `inputs` when a path follows.  Nothing of
  this is asked of a valid document.
-/
import FlowDocs.Document.Report
import FlowDocs.Proofs.Expression.Shortcuts
import FlowDocs.Proofs.Lookup.WholeContext
import FlowDocs.Proofs.Template.Placeholders
import FlowDocs.Proofs.Workflow.Course

namespace FlowDocs

/-! ### Names between braces -/

/-- The template string with one placeholder and nothing around it. -/
def Template.placeholder (expression : String) : Json :=
  .str ("\x7b\x7b" ++ expression ++ "\x7d\x7d")

/-- A name that is a single segment of a path: it holds no point and no index. -/
structure IsLoneName (name : String) : Prop where
  start : ∃ c ∈ name.toList.head?, isNameStart c = true
  chars : name.toList.all isNameChar = true
  lone : Lookup.segments name = [name]

theorem Template.resolve_placeholder {expression : String} (hne : expression ≠ "")
    (hline : '\n' ∉ expression.toList) (supply : Supply) (context : Context) :
    resolve supply context (placeholder expression)
      = (evaluate supply context expression.toList).getD .null := by
  have hsingle : single? ("\x7b\x7b" ++ expression ++ "\x7d\x7d").toList
      = some expression.toList := by
    rw [single?_eq_some_iff]
    refine ⟨by simp, ?_, hline⟩
    intro hnil
    exact hne (String.toList_inj.mp hnil)
  rw [placeholder, resolve, resolveText, hsingle]

/-- A name between braces is a reference, unless it is the name of a value. -/
theorem Template.resolve_placeholder_name {path : String}
    (hstart : ∃ c ∈ path.toList.head?, isNameStart c = true)
    (hchars : path.toList.all isNameChar = true)
    (hvalue : path ∉ ["true", "false", "null"]) (supply : Supply) (context : Context) :
    resolve supply context (placeholder path)
      = (Lookup.reference supply.left.here context path).getD .null := by
  have hmem : ∀ d ∈ path.toList, isNameChar d = true := List.all_eq_true.mp hchars
  obtain ⟨c, hhead, hc⟩ := hstart
  obtain ⟨rest, hpath⟩ := List.head?_eq_some_iff.mp hhead
  have hne : path ≠ "" := by
    rintro rfl
    cases hhead
  have hline : '\n' ∉ path.toList := by
    intro hline
    exact absurd (toNat_of_isNameChar (hmem _ hline)).1 (by decide)
  have htrim : Text.trim path.toList = path.toList :=
    Text.trim_eq_self fun d hd => isBlank_of_isNameChar (hmem d hd)
  have hrest : rest.all isNameChar = true := by
    rw [hpath, List.all_cons, Bool.and_eq_true] at hchars
    exact hchars.2
  have hkeyword : Token.keyword? (c :: rest) = none := by
    simp only [List.mem_cons, List.not_mem_nil, or_false, not_or, ← String.toList_inj,
      String.reduceToList] at hvalue
    obtain ⟨htrue, hfalse, hnull⟩ := hvalue
    rw [← hpath, Token.keyword?, if_neg htrue, if_neg hfalse, if_neg hnull]
  have htokens : tokenize (Text.trim path.toList) = [.reference path] := by
    rw [htrim, hpath, tokenize_name hc hrest hkeyword, ← hpath, String.ofList_toList]
  rw [resolve_placeholder hne hline, evaluate_eq_plainly, evaluatePlainly_of_reference htokens]

/-! ### Paths into the step outputs -/

namespace Lookup

theorem descend_of_inValue {value : Json} {path : String} {inner : Json}
    (h : inValue value path = some inner) : descend value (segments path) = some inner := by
  rw [inValue] at h
  split at h
  · cases h
  · exact h

/-- A path whose first segment is the id of a step leads into the output of the step. -/
theorem path?_of_step {context : Context} {id path : String} {rest : List String}
    (hpath : path ≠ "") (hsegments : segments path = id :: rest)
    (hid : id = "env" ∨ id = "inputs" → rest = []) {value inner : Json}
    (hget : Fields.get? context.steps id = some value) (hinner : descend value rest = some inner) :
    path? context path = some inner := by
  have henv : ¬ "env".toList ++ ['.'] <+: path.toList :=
    not_front (by decide) (by decide) hsegments fun h => hid (Or.inl h)
  have hinputs : ¬ "inputs".toList ++ ['.'] <+: path.toList :=
    not_front (by decide) (by decide) hsegments fun h => hid (Or.inr h)
  have hsteps : inFields context.steps path = some inner := by
    rw [inFields, if_neg hpath, hsegments, descendFields, hget]
    exact hinner
  rw [path?_of_no_front henv hinputs, hsteps]
  rfl

end Lookup

/-! ### Ids as names -/

namespace IsLoneName

variable {id : String} {context : Context} {value : Json}

theorem ne_empty (h : IsLoneName id) : id ≠ "" := by
  rintro rfl
  obtain ⟨c, hc, -⟩ := h.start
  cases hc

/-- An id between braces stands for the output of its step. -/
theorem resolve_id (h : IsLoneName id) (hid : id ∉ ["true", "false", "null", "now", "uuid"])
    (hget : Fields.get? context.steps id = some value) (supply : Supply) :
    Template.resolve supply context (Template.placeholder id) = value := by
  simp only [List.mem_cons, List.not_mem_nil, or_false, not_or] at hid
  obtain ⟨htrue, hfalse, hnull, hnow, huuid⟩ := hid
  have hvalue : id ∉ ["true", "false", "null"] := by simp [htrue, hfalse, hnull]
  have hpath : Lookup.path? context id = some value :=
    Lookup.path?_of_step h.ne_empty h.lone (fun _ => rfl) hget rfl
  rw [Template.resolve_placeholder_name h.start h.chars hvalue, Lookup.reference, Builtin.ofName?,
    if_neg hnow, if_neg huuid, hpath]
  rfl

theorem toList_append_path (id path : String) :
    (id ++ "." ++ path).toList = id.toList ++ '.' :: path.toList := by
  simp

/-- The point keeps a path from being a word with a meaning of its own. -/
theorem append_path_ne {word : String} (h : '.' ∉ word.toList) (path : String) :
    id ++ "." ++ path ≠ word := by
  rintro rfl
  rw [toList_append_path] at h
  exact h (List.mem_append_right _ List.mem_cons_self)

theorem segments_append_path (h : IsLoneName id) (path : String) :
    Lookup.segments (id ++ "." ++ path) = id :: Lookup.segments path := by
  have hfull : id ++ "." ++ path = String.ofList (id.toList ++ '.' :: path.toList) := by
    rw [← toList_append_path, String.ofList_toList]
  rw [hfull, Lookup.segments_append_point, String.ofList_toList, String.ofList_toList, h.lone]
  rfl

/-- A path behind an id leads into the output of the step. -/
theorem resolve_path (h : IsLoneName id) (hid : id ∉ ["env", "inputs"])
    (hget : Fields.get? context.steps id = some value) {path : String}
    (hchars : path.toList.all isNameChar = true) {inner : Json}
    (hinner : Lookup.inValue value path = some inner) (supply : Supply) :
    Template.resolve supply context (Template.placeholder (id ++ "." ++ path)) = inner := by
  have hstart : ∃ d ∈ (id ++ "." ++ path).toList.head?, isNameStart d = true := by
    obtain ⟨c, hhead, hc⟩ := h.start
    refine ⟨c, ?_, hc⟩
    rw [toList_append_path, List.head?_append, hhead]
    rfl
  have hall : (id ++ "." ++ path).toList.all isNameChar = true := by
    rw [toList_append_path, List.all_append, List.all_cons, h.chars, hchars]
    rfl
  have hvalue : id ++ "." ++ path ∉ ["true", "false", "null"] := by
    simp only [List.mem_cons, List.not_mem_nil, or_false, not_or]
    exact ⟨append_path_ne (by decide) path, append_path_ne (by decide) path,
      append_path_ne (by decide) path⟩
  have hnow : id ++ "." ++ path ≠ "now" := append_path_ne (by decide) path
  have huuid : id ++ "." ++ path ≠ "uuid" := append_path_ne (by decide) path
  have hfront : id = "env" ∨ id = "inputs" → Lookup.segments path = [] := by
    intro hreserved
    exact absurd (by simpa using hreserved) hid
  have hpath : Lookup.path? context (id ++ "." ++ path) = some inner :=
    Lookup.path?_of_step (append_path_ne (by decide) path) (h.segments_append_path path) hfront
      hget (Lookup.descend_of_inValue hinner)
  rw [Template.resolve_placeholder_name hstart hall hvalue, Lookup.reference, Builtin.ofName?,
    if_neg hnow, if_neg huuid, hpath]
  rfl

end IsLoneName

/-! ### Runs -/

namespace Workflow

variable {σ : Type}

/-- **Outputs are found by the ids of their steps.**  When a step has had a turn that
    went well and no turn of the same id came in between, the parameters of a later
    call are resolved against a context where the id, between braces, stands for the
    output, and a path behind the id leads into it.  The id has to be a name that is a
    single segment of a path; alone it must not be the name of a value or a builtin, and
    in front of a path it must not be `env` or `inputs`. -/
theorem output_addressable (executor : Executor σ) (supply : Supply) (document : Json)
    (context : Context) (state : σ) :
    let turns := executor.turns state (run executor supply document context state).calls
    ∀ i j turn later value, turns[i]? = some turn → turns[j]? = some later → i < j →
      turn.answer = .ok value →
      (∀ k between, i < k → k < j → turns[k]? = some between → between.id ≠ turn.id) →
      let reached := context.after (turns.take j)
      later.call.params
          = Template.resolve (supply.left.forStep j) reached later.call.step.params ∧
        (IsLoneName turn.id → turn.id ∉ ["true", "false", "null", "now", "uuid"] →
          ∀ asked, Template.resolve asked reached (Template.placeholder turn.id) = value) ∧
        (IsLoneName turn.id → turn.id ∉ ["env", "inputs"] →
          ∀ path inner, path.toList.all isNameChar = true →
            Lookup.inValue value path = some inner →
            ∀ asked, Template.resolve asked reached
              (Template.placeholder (turn.id ++ "." ++ path)) = inner) := by
  intro turns i j turn later value hturn hlater hij hanswer hbetween reached
  -- what the turn has left under its id is still there when the later call is made
  have hget : Fields.get? reached.steps turn.id = some value := by
    have htake : (turns.take j)[i]? = some turn := by rw [List.getElem?_take_of_lt hij, hturn]
    have hlast : ∀ other ∈ (turns.take j).drop (i + 1), other.id ≠ turn.id := by
      intro other hother
      obtain ⟨k, hk⟩ := List.mem_iff_getElem?.mp hother
      rw [List.getElem?_drop, List.getElem?_take] at hk
      split at hk
      · rename_i hlt
        exact hbetween (i + 1 + k) other (by omega) hlt hk
      · cases hk
    rw [context.get?_steps_after_last htake hlast, Turn.output_of_ok hanswer]
  refine ⟨?_, ?_, ?_⟩
  · cases hread : Document.readSteps document with
    | error failure =>
      have hnil : turns = [] := by
        simp only [turns, run_of_error hread, Executor.turns]
      rw [hnil] at hlater
      cases hlater
    | ok steps => exact (call_of_run hread rfl hlater).2
  · intro hname hid asked
    exact hname.resolve_id hid hget asked
  · intro hname hid path inner hchars hinner asked
    exact hname.resolve_path hid hget hchars hinner asked

theorem isLoneName_first : IsLoneName "a" := by
  have hlone : Lookup.segments (String.ofList ['a']) = [String.ofList ['a']] :=
    Lookup.segments_of_not_mem (by decide) (by decide)
  exact ⟨⟨'a', rfl, by decide⟩, by decide, hlone⟩

/-- The second step of two is given the output of the first, and can look into it. -/
theorem output_addressable_relay :
    let executor := answering (.obj [("x", .str "out")])
    let turns := executor.turns ()
      (run executor (.constant ⟨"noon", "id"⟩) (relay "stop") {} ()).calls
    let reached := ({} : Context).after (turns.take 1)
    (∃ later, turns[1]? = some later ∧ later.call.params = .obj [("x", .str "out")]) ∧
      Template.resolve (.constant ⟨"noon", "id"⟩) reached (Template.placeholder "a.x")
        = .str "out" := by
  have hinner : Lookup.inValue (.obj [("x", .str "out")]) "x" = some (.str "out") := by
    cbv
  obtain ⟨hparams, hid, hpath⟩ := output_addressable (answering (.obj [("x", .str "out")]))
    (.constant ⟨"noon", "id"⟩) (relay "stop") {} () 0 1
    ⟨⟨⟨"a", "s", "get", .null, []⟩, .null⟩, .ok (.obj [("x", .str "out")])⟩ _ _ rfl rfl
    (by decide) rfl (fun k between hlow hhigh => absurd hhigh (by omega))
  exact ⟨⟨_, rfl, hparams.trans (hid isLoneName_first (by decide) _)⟩,
    hpath isLoneName_first (by decide) "x" (.str "out") (by decide) hinner _⟩

/-- Ids that are read as something else between braces, and what they are read as. -/
def misread : List (String × Json) :=
  [("fetch-user", .null), ("2nd", .num (.integer 2)), ("a.b", .null), ("a[0]", .null),
    ("true", .bool true), ("false", .bool false), ("null", .null),
    ("now", .str "noon"), ("uuid", .str "id")]

/-- Ids that lead elsewhere when a path follows. -/
def misled : List String := ["env", "inputs"]

/-- The output of every step that has one of these ids. -/
def wanted : List Json :=
  (misread.map fun entry => Template.placeholder entry.1) ++
    misled.map fun id => Template.placeholder (id ++ ".x")

/-- A step for each of these ids, and a step that wants their outputs. -/
def misnamed : Json :=
  let step := fun (id : String) (params : Json) => Json.obj
    [("id", .str id), ("service", .str "s"), ("action", .str "get"), ("params", params)]
  let ids := misread.map Prod.fst ++ misled
  .obj [("$0n", .obj [("type", .str "workflow"), ("version", .str "1.0.0")]),
    ("steps", .arr (ids.map (fun id => step id .null) ++ [step "report" (.arr wanted)]))]

theorem resolveItems_constant (answers : Answers) (context : Context) (items : List Json) :
    Template.resolveItems (.constant answers) context items
      = items.map (Template.resolve (.constant answers) context) := by
  induction items with
  | nil => rfl
  | cons item rest ih => rw [Template.resolveItems, Supply.right_constant, ih]; rfl

/-- A valid document whose run ends well, and none of whose ids stands for the output
    of its step. -/
theorem outputs_not_addressable :
    let executor := answering (.obj [("x", .str "out")])
    let outcome := run executor (.constant ⟨"noon", "id"⟩) misnamed {} ()
    let turns := executor.turns () outcome.calls
    (Document.validate misnamed).valid = true ∧
      (∃ finish, outcome.result = .ok finish ∧
        finish.executed = misread.map Prod.fst ++ misled ++ ["report"]) ∧
      (∀ turn ∈ turns, turn.answer = .ok (.obj [("x", .str "out")])) ∧
      (∃ last, turns[11]? = some last ∧ last.call.step.params = .arr wanted ∧
        last.call.params = .arr (misread.map Prod.snd ++ misled.map fun _ => .null)) ∧
      (∀ entry ∈ misread, entry.2 ≠ .obj [("x", .str "out")]) ∧
      Lookup.inValue (.obj [("x", .str "out")]) "x" = some (.str "out") := by
  intro executor outcome turns
  -- the digit is a number of its own, and the first value of a chain without operators
  have hsecond : ∀ context, Template.resolve (.constant ⟨"noon", "id"⟩) context
      (Template.placeholder "2nd") = .num (.integer 2) := by
    intro context
    have hdigit : Token.ofNumberRun? ['2'] = some (.literal (.num (.integer 2))) := by decide
    have hlexemes : lexemes "2nd".toList = [.number ['2'], .name ['n', 'd']] := by cbv
    have htrim : Text.trim "2nd".toList = "2nd".toList := by decide
    have htokens : tokenize "2nd".toList = [.literal (.num (.integer 2)), .reference "nd"] := by
      rw [tokenize, hlexemes]
      simp [Lexeme.token?, hdigit, Token.ofName, Token.keyword?]
    rw [Template.resolve_placeholder (by decide) (by decide), evaluate_eq_plainly,
      evaluatePlainly, htrim, htokens]
    rfl
  have hliteral : ∀ (word : String) (value : Json), word ≠ "" → '\n' ∉ word.toList →
      tokenize (Text.trim word.toList) = [.literal value] → ∀ context,
      Template.resolve (.constant ⟨"noon", "id"⟩) context (Template.placeholder word) = value := by
    intro word value hne hline htokens context
    rw [Template.resolve_placeholder hne hline, evaluate_eq_plainly, evaluatePlainly, htokens]
    rfl
  have hreached : ({} : Context).after (turns.take 11)
      = { steps := (misread.map Prod.fst ++ misled).map fun id =>
          (id, Json.obj [("x", .str "out")]) } := by
    rfl
  have hmisread : ∀ entry ∈ misread, Template.resolve (.constant ⟨"noon", "id"⟩)
      (({} : Context).after (turns.take 11)) (Template.placeholder entry.1) = entry.2 := by
    rw [hreached]
    simp only [misread, List.forall_mem_cons]
    exact ⟨by cbv, hsecond _, by cbv, by cbv,
      hliteral "true" (.bool true) (by decide) (by decide) (by cbv) _,
      hliteral "false" (.bool false) (by decide) (by decide) (by cbv) _,
      hliteral "null" .null (by decide) (by decide) (by cbv) _, by cbv, by cbv,
      fun entry h => absurd h List.not_mem_nil⟩
  have hmisled : ∀ id ∈ misled, Template.resolve (.constant ⟨"noon", "id"⟩)
      (({} : Context).after (turns.take 11)) (Template.placeholder (id ++ ".x")) = .null := by
    rw [hreached]
    simp only [misled, List.forall_mem_cons]
    exact ⟨by cbv, by cbv, fun id h => absurd h List.not_mem_nil⟩
  have hlength : turns.length = 12 := rfl
  obtain ⟨last, hlast⟩ : ∃ last, turns[11]? = some last :=
    ⟨_, List.getElem?_eq_getElem (by rw [hlength]; decide)⟩
  have hread : Document.readSteps misnamed = .ok
      ((misread.map Prod.fst ++ misled).map (fun id => ⟨id, "s", "get", .null, []⟩) ++
        [⟨"report", "s", "get", .arr wanted, []⟩]) := by
    rfl
  obtain ⟨hstep, hparams⟩ := call_of_run hread rfl hlast
  have hreport : last.call.step = ⟨"report", "s", "get", .arr wanted, []⟩ :=
    (Option.some.inj hstep).symm
  have hsupply : (Supply.constant ⟨"noon", "id"⟩).left.forStep 11 = .constant ⟨"noon", "id"⟩ := rfl
  have hwanted : wanted.map (Template.resolve (.constant ⟨"noon", "id"⟩)
      (({} : Context).after (turns.take 11))) = misread.map Prod.snd ++ misled.map fun _ => .null := by
    rw [wanted, List.map_append, List.map_map, List.map_map]
    exact congrArg₂ (· ++ ·) (List.map_congr_left hmisread) (List.map_congr_left hmisled)
  rw [hreport, hsupply, Template.resolve, resolveItems_constant, hwanted] at hparams
  refine ⟨by cbv, ⟨_, rfl, rfl⟩, fun turn => answer_of_answering, ⟨last, hlast, ?_, hparams⟩,
    ?_, by cbv⟩
  · rw [hreport]
  · simp [misread]

end Workflow
end FlowDocs
