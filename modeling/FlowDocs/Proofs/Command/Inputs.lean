/-
  FlowDocs/Proofs/Command/Inputs.lean
  ===================================
  **The inputs of the command line reach the templates.**

  The inputs of a request are an object and single pairs laid over it, one after the
  other.  Taking one pair into the object leaves what every key comes to in the end as it
  was; so the last pair of a key decides, and without a pair the object does.  A key that
  is a plain name is found behind the front `inputs.`, between braces, whatever the
  environment holds, and a value without doubles can be passed as its own compact text.
-/
import FlowDocs.Command.Execution
import FlowDocs.Proofs.Json.RoundTrip
import FlowDocs.Proofs.Workflow.Addressing

namespace FlowDocs

namespace ResolveRequest

/-! ### What the options say -/

/-- The text of an option holds this object; an option that was not given stands for the
    empty one. -/
inductive GivesObject : Option String → Json.Object → Prop
  | absent : GivesObject none []
  | given {text : String} {fields : Json.Object} :
      Json.parse text = .ok (.obj fields) → GivesObject (some text) fields

/-- The pair has a key, which is not empty, and behind the first equals sign a text. -/
structure IsPair (pair key text : String) : Prop where
  ne_empty : key ≠ ""
  not_mem : '=' ∉ key.toList
  eq : pair = key ++ "=" ++ text

/-- What the text of an input stands for: a value if it is the text of one, and otherwise
    the text itself. -/
inductive Means (text : String) : Json → Prop
  | json {value : Json} : Json.parse text = .ok value → Means text value
  | plain : (∀ value, Json.parse text ≠ .ok value) → Means text (.str text)

/-- No pair has the key. -/
def Unpaired (pairs : List String) (key : String) : Prop :=
  ∀ pair ∈ pairs, ∀ text, ¬ IsPair pair key text

/-- What a key is to stand for: the value of its last pair, or else what it stands for in
    the object. -/
inductive Assigns (pairs : List String) (given : Json.Object) (key : String) :
    Option Json → Prop
  | pair {front back : List String} {pair text : String} {value : Json} :
      pairs = front ++ pair :: back → IsPair pair key text → Unpaired back key →
      Means text value → Assigns pairs given key (some value)
  | given : Unpaired pairs key → Assigns pairs given key (Fields.get? given key)

/-! ### One pair -/

theorem means_iff {text : String} {value : Json} : Means text value ↔ value = inputValue text := by
  unfold inputValue
  constructor
  · intro h
    cases h with
    | json hparse => simp [hparse]
    | plain hparse =>
      split
      · rename_i value hvalue
        exact absurd hvalue (hparse value)
      · rfl
  · rintro rfl
    split
    · rename_i value hvalue
      exact .json hvalue
    · rename_i error herror
      refine .plain ?_
      intro value hvalue
      rw [herror] at hvalue
      cases hvalue

theorem objectOf_eq_ok {option : String} {text : Option String} {fields : Json.Object}
    (h : GivesObject text fields) : objectOf option text = .ok fields := by
  cases h with
  | absent => rfl
  | given hparse => simp [objectOf, hparse]

/-- The pair is split where the first equals sign stands. -/
theorem IsPair.split {pair key text : String} (h : IsPair pair key text) :
    pair.toList.takeWhile (· ≠ '=') = key.toList ∧
      pair.toList.dropWhile (· ≠ '=') = '=' :: text.toList := by
  have hkey : ∀ c ∈ key.toList, decide (c ≠ '=') = true := by
    intro c hc
    simp only [decide_eq_true_eq]
    rintro rfl
    exact h.not_mem hc
  have hpair : pair.toList = key.toList ++ '=' :: text.toList := by
    simp [h.eq]
  rw [hpair, List.takeWhile_append_of_pos hkey, List.dropWhile_append_of_pos hkey]
  simp

theorem IsPair.unique {pair key text key' text' : String} (h : IsPair pair key text)
    (h' : IsPair pair key' text') : key = key' ∧ text = text' := by
  rcases h.split with ⟨htake, hdrop⟩
  rcases h'.split with ⟨htake', hdrop'⟩
  have hkey : key.toList = key'.toList := htake.symm.trans htake'
  have htext : '=' :: text.toList = '=' :: text'.toList := hdrop.symm.trans hdrop'
  exact ⟨String.toList_inj.mp hkey, String.toList_inj.mp (List.cons.inj htext).2⟩

theorem inputPair_eq_ok {pair key text : String} (h : IsPair pair key text) :
    inputPair pair = .ok (key, inputValue text) := by
  rcases h.split with ⟨htake, hdrop⟩
  simp only [inputPair, htake, hdrop, String.ofList_toList, if_neg h.ne_empty]

/-! ### All pairs -/

theorem unpaired_cons_iff {pair key text other : String} {rest : List String}
    (h : IsPair pair key text) : Unpaired (pair :: rest) other ↔ other ≠ key ∧ Unpaired rest other := by
  constructor
  · intro hnone
    refine ⟨?_, ?_⟩
    · rintro rfl
      exact hnone pair List.mem_cons_self text h
    · intro later hlater
      exact hnone later (List.mem_cons_of_mem _ hlater)
  · rintro ⟨hne, hrest⟩ later hlater found hfound
    rcases List.mem_cons.mp hlater with rfl | hmem
    · exact hne (hfound.unique h).1
    · exact hrest later hmem found hfound

/-- **One pair.**  Laying a pair over the object leaves what every key is to stand for. -/
theorem assigns_cons_iff {pair key text : String} (h : IsPair pair key text) {rest : List String}
    {given : Json.Object} {other : String} {found : Option Json} :
    Assigns (pair :: rest) given other found ↔
      Assigns rest (Fields.set given key (inputValue text)) other found := by
  have hget := Fields.get?_set given key (inputValue text) other
  constructor
  · intro hassigns
    cases hassigns with
    | @pair front back last lastText value hpairs hlast hlater hmeans =>
      rcases front with _ | ⟨first, front⟩
      · -- the pair itself is the last of its key
        rcases List.cons.inj hpairs with ⟨rfl, rfl⟩
        rcases hlast.unique h with ⟨rfl, rfl⟩
        obtain rfl := means_iff.mp hmeans
        rw [if_pos rfl] at hget
        rw [← hget]
        exact .given hlater
      · exact .pair (List.cons.inj hpairs).2 hlast hlater hmeans
    | given hnone =>
      rcases (unpaired_cons_iff h).mp hnone with ⟨hne, hrest⟩
      rw [if_neg hne] at hget
      rw [← hget]
      exact .given hrest
  · intro hassigns
    cases hassigns with
    | @pair front back last lastText value hpairs hlast hlater hmeans =>
      have hsplit : pair :: rest = (pair :: front) ++ last :: back := by
        rw [hpairs, List.cons_append]
      exact .pair hsplit hlast hlater hmeans
    | given hnone =>
      rw [hget]
      by_cases hkey : other = key
      · subst hkey
        rw [if_pos rfl]
        have hsplit : pair :: rest = [] ++ pair :: rest := rfl
        exact .pair hsplit h hnone (means_iff.mpr rfl)
      · rw [if_neg hkey]
        exact .given ((unpaired_cons_iff h).mpr ⟨hkey, hnone⟩)

/-- **All pairs.**  They are all taken in, and every key stands for what it is to. -/
theorem withPairs_eq_ok {pairs : List String}
    (h : ∀ pair ∈ pairs, ∃ key text, IsPair pair key text) (given : Json.Object) :
    ∃ inputs, withPairs given pairs = .ok inputs ∧
      ∀ key found, Fields.get? inputs key = found ↔ Assigns pairs given key found := by
  induction pairs generalizing given with
  | nil =>
    refine ⟨given, rfl, ?_⟩
    intro key found
    constructor
    · rintro rfl
      exact .given (List.forall_mem_nil _)
    · intro hassigns
      cases hassigns with
      | pair hpairs => simp at hpairs
      | given hnone => rfl
  | cons pair rest ih =>
    rw [List.forall_mem_cons] at h
    rcases h with ⟨⟨key, text, hpair⟩, hrest⟩
    rcases ih hrest (Fields.set given key (inputValue text)) with ⟨inputs, hinputs, hget⟩
    refine ⟨inputs, ?_, ?_⟩
    · simp only [withPairs, inputPair_eq_ok hpair, hinputs]
    · intro other found
      rw [hget, assigns_cons_iff hpair]

/-! ### Inputs between braces -/

/-- A name for an input: an ASCII letter, `_` or `$`, and then letters, digits, `_` and
    `$`. -/
def IsInputName (key : String) : Prop :=
  ∃ c rest, key.toList = c :: rest ∧ (c.isAlpha = true ∨ c = '_' ∨ c = '$') ∧
    ∀ d ∈ rest, d.isAlphanum = true ∨ d = '_' ∨ d = '$'

namespace IsInputName

variable {key : String}

theorem isAlphanum (h : IsInputName key) :
    ∀ d ∈ key.toList, d.isAlphanum = true ∨ d = '_' ∨ d = '$' := by
  rcases h with ⟨c, rest, hkey, hstart, hrest⟩
  intro d hd
  rw [hkey] at hd
  rcases List.mem_cons.mp hd with rfl | hmem
  · rcases hstart with halpha | hother
    · exact Or.inl (by simp [Char.isAlphanum, halpha])
    · exact Or.inr hother
  · exact hrest d hmem

theorem not_mem (h : IsInputName key) {d : Char} (hd : d.isAlphanum = false) (hline : d ≠ '_')
    (hdollar : d ≠ '$') : d ∉ key.toList := by
  intro hmem
  rcases h.isAlphanum d hmem with halpha | rfl | rfl
  · simp [halpha] at hd
  · exact hline rfl
  · exact hdollar rfl

theorem ne_empty (h : IsInputName key) : key ≠ "" := by
  rcases h with ⟨c, rest, hkey, -⟩
  rintro rfl
  cases hkey

theorem isNameChar (h : IsInputName key) : key.toList.all isNameChar = true := by
  rw [List.all_eq_true]
  intro d hd
  rcases h.isAlphanum d hd with halpha | rfl | rfl
  · simp [FlowDocs.isNameChar, halpha]
  · decide
  · decide

/-- Behind the front there is one segment, the key, which is looked up among the inputs. -/
theorem reference (h : IsInputName key) (answers : Answers) (context : Context) :
    Lookup.reference answers context ("inputs." ++ key) = Fields.get? context.inputs key := by
  have hpath : ("inputs." ++ key).toList = "inputs.".toList ++ key.toList := String.toList_append
  have hbuiltin : Builtin.ofName? ("inputs." ++ key) = none := by
    have hne : ∀ {word : String}, '.' ∉ word.toList → "inputs." ++ key ≠ word := by
      rintro word hword rfl
      rw [hpath] at hword
      exact hword (by simp)
    rw [Builtin.ofName?, if_neg (hne (by decide)), if_neg (hne (by decide))]
  have henv : Lookup.stripFront? "env.".toList ("inputs." ++ key).toList = none := by
    rw [hpath]
    rfl
  have hinputs : Lookup.stripFront? "inputs.".toList ("inputs." ++ key).toList = some key.toList :=
    Lookup.stripFront?_eq_some_iff.mpr hpath
  have hsegments : Lookup.segments key = [key] := by
    have hlone := Lookup.segments_of_not_mem (h.not_mem (d := '[') (by decide) (by decide) (by decide))
      (h.not_mem (d := '.') (by decide) (by decide) (by decide))
    rwa [String.ofList_toList] at hlone
  simp only [Lookup.reference, hbuiltin, Lookup.path?, henv, hinputs, String.ofList_toList,
    Lookup.inFields, if_neg h.ne_empty, hsegments, Lookup.descendFields]
  cases Fields.get? context.inputs key <;> rfl

/-- An input between braces stands for its value. -/
theorem resolve (h : IsInputName key) {context : Context} {value : Json}
    (hget : Fields.get? context.inputs key = some value) (supply : Supply) :
    Template.resolve supply context (Template.placeholder ("inputs." ++ key)) = value := by
  have hpath : ("inputs." ++ key).toList = "inputs.".toList ++ key.toList := String.toList_append
  have hstart : ∃ c ∈ ("inputs." ++ key).toList.head?, FlowDocs.isNameStart c = true :=
    ⟨'i', by rw [hpath]; rfl, by decide⟩
  have hall : ("inputs." ++ key).toList.all FlowDocs.isNameChar = true := by
    rw [hpath, List.all_append, h.isNameChar]
    decide
  have hvalue : "inputs." ++ key ∉ ["true", "false", "null"] := by
    intro hmem
    have hpoint : ∀ word ∈ ["true", "false", "null"], '.' ∉ word.toList := by decide
    refine hpoint _ hmem ?_
    simp [hpath]
  rw [Template.resolve_placeholder_name hstart hall hvalue, h.reference, hget]
  rfl

end IsInputName

/-! ### The context of a request -/

theorem context_eq_ok {request : ResolveRequest} {given inputs steps : Json.Object}
    (hgiven : GivesObject request.inputs given) (hsteps : GivesObject request.steps steps)
    (hinputs : withPairs given request.pairs = .ok inputs) :
    request.context = .ok { inputs := inputs, steps := steps } := by
  simp only [context, objectOf_eq_ok hgiven, hinputs, objectOf_eq_ok hsteps]

/-- The compact text of a value, passed under a key, stands for the value. -/
theorem assigns_compact {pairs front back : List String} {key : String} {value : Json}
    {given : Json.Object} (hkey : IsInputName key) (hvalue : Json.Readable Json.maxDepth value)
    (hpairs : pairs = front ++ (key ++ "=" ++ value.compact) :: back) (hback : Unpaired back key) :
    Assigns pairs given key (some value) := by
  have hequals : '=' ∉ key.toList := hkey.not_mem (by decide) (by decide) (by decide)
  have hpair : IsPair (key ++ "=" ++ value.compact) key value.compact :=
    ⟨hkey.ne_empty, hequals, rfl⟩
  exact .pair hpairs hpair hback (.json (Json.parse_compact hvalue))

/-- **Inputs reach the templates.**  Where the options hold objects and every pair has a key,
    there is a context.  Its inputs have under each key the value of the last pair with the
    key, or else what was given in the object; the value of a pair is read from its text, or
    is the text.  A key that is a plain name stands for its value between braces, whatever
    the environment is.  So does a value without doubles that nests at most 127 levels deep,
    when its compact text was passed. -/
theorem inputs_reach_templates {request : ResolveRequest} {given steps : Json.Object}
    (hgiven : GivesObject request.inputs given) (hsteps : GivesObject request.steps steps)
    (hpairs : ∀ pair ∈ request.pairs, ∃ key text, IsPair pair key text) :
    ∃ context, request.context = .ok context ∧ context.steps = steps ∧
      (∀ key found, Fields.get? context.inputs key = found ↔
        Assigns request.pairs given key found) ∧
      (∀ key value, IsInputName key → Assigns request.pairs given key (some value) →
        ∀ supply environment, Template.resolve supply { context with env := environment }
          (Template.placeholder ("inputs." ++ key)) = value) ∧
      ∀ key value front back, IsInputName key → Json.Readable 127 value →
        request.pairs = front ++ (key ++ "=" ++ value.compact) :: back → Unpaired back key →
        ∀ supply environment, Template.resolve supply { context with env := environment }
          (Template.placeholder ("inputs." ++ key)) = value := by
  rcases withPairs_eq_ok hpairs given with ⟨inputs, hinputs, hget⟩
  have hresolve : ∀ key value, IsInputName key → Assigns request.pairs given key (some value) →
      ∀ supply environment, Template.resolve supply ⟨inputs, steps, environment, []⟩
        (Template.placeholder ("inputs." ++ key)) = value := by
    intro key value hkey hassigns supply environment
    exact hkey.resolve ((hget key (some value)).mpr hassigns) supply
  refine ⟨_, context_eq_ok hgiven hsteps hinputs, rfl, hget, hresolve, ?_⟩
  intro key value front back hkey hvalue hsplit hback
  exact hresolve key value hkey (assigns_compact hkey hvalue hsplit hback)

/-- Two pairs for one key, a text that only looks like a value, and a value with an equals
    sign in it. -/
def overridden : ResolveRequest :=
  { file := "greeting.json", inputs := some "\x7b\"a\":1,\"b\":2\x7d",
    pairs := ["a=[1]", "c=x=\x7b", "a=\x7b\"k\":[null,\"=\"]\x7d"] }

theorem inputs_reach_templates_overridden :
    ∃ context, overridden.context = .ok context ∧
      Fields.get? context.inputs "b" = some (Json.int 2) ∧
      ∀ supply environment,
        Template.resolve supply { context with env := environment } (.str "\x7b\x7binputs.c\x7d\x7d")
          = .str "x=\x7b" ∧
        Template.resolve supply { context with env := environment } (.str "\x7b\x7binputs.a\x7d\x7d")
          = .obj [("k", .arr [.null, .str "="])] := by
  have hinputs : Json.parse "\x7b\"a\":1,\"b\":2\x7d"
      = .ok (.obj [("a", Json.int 1), ("b", Json.int 2)]) := by
    cbv
  have hfirst : IsPair "a=[1]" "a" "[1]" := ⟨by decide, by decide, rfl⟩
  have hplain : IsPair "c=x=\x7b" "c" "x=\x7b" := ⟨by decide, by decide, rfl⟩
  have hlast : IsPair "a=\x7b\"k\":[null,\"=\"]\x7d" "a" "\x7b\"k\":[null,\"=\"]\x7d" :=
    ⟨by decide, by decide, rfl⟩
  have hpairs : ∀ pair ∈ overridden.pairs, ∃ key text, IsPair pair key text := by
    intro pair hpair
    simp only [overridden, List.mem_cons, List.not_mem_nil, or_false] at hpair
    rcases hpair with rfl | rfl | rfl
    · exact ⟨_, _, hfirst⟩
    · exact ⟨_, _, hplain⟩
    · exact ⟨_, _, hlast⟩
  have hnone : ∀ key, Unpaired [] key := fun key => List.forall_mem_nil _
  have hb : Unpaired overridden.pairs "b" := by
    refine (unpaired_cons_iff hfirst).mpr ⟨by decide, ?_⟩
    refine (unpaired_cons_iff hplain).mpr ⟨by decide, ?_⟩
    exact (unpaired_cons_iff hlast).mpr ⟨by decide, hnone "b"⟩
  have hc : Unpaired ["a=\x7b\"k\":[null,\"=\"]\x7d"] "c" :=
    (unpaired_cons_iff hlast).mpr ⟨by decide, hnone "c"⟩
  have herror : Json.parse "x=\x7b"
      = .error { fault := .expectedValue, line := 1, column := 1 } := by
    cbv
  have hmeans : Means "x=\x7b" (.str "x=\x7b") := by
    refine .plain ?_
    intro value hvalue
    simp [herror] at hvalue
  have hcompact : overridden.pairs = ["a=[1]", "c=x=\x7b"]
      ++ ("a" ++ "=" ++ (Json.obj [("k", .arr [.null, .str "="])]).compact) :: [] := by
    decide +kernel
  have hreadable : Json.Readable 127 (.obj [("k", .arr [.null, .str "="])]) :=
    ⟨⟨by decide, by decide⟩, by decide⟩
  have hsplit : overridden.pairs
      = ["a=[1]"] ++ "c=x=\x7b" :: ["a=\x7b\"k\":[null,\"=\"]\x7d"] := rfl
  have hnameA : IsInputName "a" := ⟨'a', [], rfl, by decide, List.forall_mem_nil _⟩
  have hnameC : IsInputName "c" := ⟨'c', [], rfl, by decide, List.forall_mem_nil _⟩
  rcases inputs_reach_templates (.given hinputs) .absent hpairs with
    ⟨context, hcontext, -, hget, hresolve, hcompacts⟩
  refine ⟨context, hcontext, (hget _ _).mpr (.given hb), ?_⟩
  intro supply environment
  refine ⟨?_, ?_⟩
  · exact hresolve "c" _ hnameC (.pair hsplit hplain hc hmeans) supply environment
  · exact hcompacts "a" _ _ _ hnameA hreadable hcompact (hnone "a") supply environment

end ResolveRequest
end FlowDocs
