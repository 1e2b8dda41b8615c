/-
  FlowDocs/Proofs/Template/Finiteness.lean
  ========================================
  **Resolution lets no infinity in.**

  A finite context refers to finite values only, an expression computes finite values
  from them, and a template is rebuilt from those and its own numbers.  So when the
  numbers of a template and its context are finite, so is every number in the result.
-/
import FlowDocs.Proofs.Expression.Arithmetic
import FlowDocs.Proofs.Expression.Shortcuts
import FlowDocs.Proofs.Json.Entries
import FlowDocs.Proofs.Json.Induction
import FlowDocs.Proofs.Lookup.WholeContext
import FlowDocs.Template.Resolution

namespace FlowDocs

/-- Every number in the context is finite; the environment holds text only. -/
structure Context.Finite (context : Context) : Prop where
  inputs : (Json.obj context.inputs).Finite
  steps : (Json.obj context.steps).Finite
  extra : (Json.obj context.extra).Finite

/-! ### References -/

namespace Lookup

theorem finite_of_child {value inner : Json} {segment : String} (h : value.Finite)
    (hchild : child value segment = some inner) : inner.Finite := by
  unfold child at hchild
  split at hchild
  · exact Json.finite_obj.mp h _ (Fields.mem_of_get? hchild)
  · obtain ⟨i, -, hitem⟩ := Option.bind_eq_some_iff.mp hchild
    exact Json.finite_arr.mp h _ (List.mem_of_getElem? hitem)
  · cases hchild

theorem finite_of_descend {value inner : Json} {segments : List String} (h : value.Finite)
    (hdescend : descend value segments = some inner) : inner.Finite := by
  induction segments generalizing value with
  | nil => cases hdescend; exact h
  | cons segment rest ih =>
    rw [descend] at hdescend
    split at hdescend
    · rename_i next hnext
      exact ih (finite_of_child h hnext) hdescend
    · cases hdescend

theorem finite_of_inFields {fields : Json.Object} {value : Json} {path : String}
    (h : (Json.obj fields).Finite) (hvalue : inFields fields path = some value) : value.Finite := by
  rw [inFields_eq_inValue, inValue] at hvalue
  split at hvalue
  · cases hvalue
  · exact finite_of_descend h hvalue

theorem finite_variables (env : Variables) : env.toJson.Finite := by
  rw [Variables.toJson, Json.finite_obj]
  intro field hfield
  obtain ⟨entry, -, rfl⟩ := List.mem_map.mp hfield
  exact List.forall_mem_nil _

theorem finite_of_variableAt? {env : Variables} {value : Json} {segments : List String}
    (hvalue : variableAt? env segments = some value) : value.Finite := by
  unfold variableAt? at hvalue
  split at hvalue
  · obtain ⟨text, -, rfl⟩ := Option.map_eq_some_iff.mp hvalue
    exact List.forall_mem_nil _
  · cases hvalue

variable {context : Context} {path : String} {value : Json}

theorem finite_of_inContext (h : context.Finite) (hvalue : inContext context path = some value) :
    value.Finite := by
  unfold inContext at hvalue
  split at hvalue
  · cases hvalue
  · split at hvalue
    · cases hvalue
    · rename_i first rest _
      split at hvalue
      · rw [inPart_eq_descend] at hvalue
        exact finite_of_descend h.inputs hvalue
      · split at hvalue
        · rw [inPart_eq_descend] at hvalue
          exact finite_of_descend h.steps hvalue
        · split at hvalue
          · rw [inEnv_eq_descend] at hvalue
            exact finite_of_descend (finite_variables context.env) hvalue
          · rw [← descend_obj _ (List.cons_ne_nil first rest)] at hvalue
            exact finite_of_descend h.extra hvalue

/-- A finite context refers to finite values only. -/
theorem finite_of_reference {answers : Answers} (h : context.Finite)
    (hvalue : reference answers context path = some value) : value.Finite := by
  rw [reference] at hvalue
  split at hvalue
  · -- what the world answers is text
    rename_i builtin _
    cases builtin with
    | now => cases hvalue; exact List.forall_mem_nil _
    | uuid => cases hvalue; exact List.forall_mem_nil _
  · unfold path? at hvalue
    split at hvalue
    · split at hvalue
      · cases hvalue
      · exact finite_of_variableAt? hvalue
    · split at hvalue
      · exact finite_of_inFields h.inputs hvalue
      · split at hvalue
        · rename_i hstep
          cases hvalue
          exact finite_of_inFields h.steps hstep
        · exact finite_of_inContext h hvalue

end Lookup

/-! ### Expressions -/

variable {context : Context}

theorem finite_resolveAll (h : context.Finite) {supply : Supply} {tokens : List Token}
    (hliterals : ∀ value, .literal value ∈ tokens → value.Finite) :
    ∀ x, .operand x ∈ Token.resolveAll supply context tokens → FiniteOperand x := by
  induction tokens generalizing supply with
  | nil => nofun
  | cons token rest ih =>
    intro x hx value hvalue
    rw [Token.resolveAll, List.mem_cons] at hx
    rcases hx with hx | hx
    · cases token with
      | literal literal =>
        cases hx
        cases hvalue
        exact hliterals _ List.mem_cons_self
      | operator op => cases hx
      | reference path =>
        cases hx
        exact Lookup.finite_of_reference h hvalue
    · exact ih (fun value hmem => hliterals value (List.mem_cons_of_mem token hmem)) x hx value
        hvalue

/-- **An expression over a finite context has a finite value.** -/
theorem finite_of_evaluate (h : context.Finite) {supply : Supply} {e : List Char} {value : Json}
    (hvalue : evaluate supply context e = some value) : value.Finite := by
  rw [evaluate_eq_plainly, evaluatePlainly] at hvalue
  split at hvalue
  · cases hvalue
    exact List.forall_mem_nil _
  · have hliterals : ∀ value, .literal value ∈ tokenize (Text.trim e) → value.Finite :=
      fun value hmem => finite_of_mem_tokenize hmem
    exact finite_reduce (finite_resolveAll h hliterals) value hvalue

/-! ### Templates -/

namespace Template

theorem finite_of_resolveText (h : context.Finite) {supply : Supply} {text : String} {value : Json}
    (hvalue : resolveText supply context text = some value) : value.Finite := by
  unfold resolveText at hvalue
  split at hvalue
  · exact finite_of_evaluate h hvalue
  · split at hvalue
    · cases hvalue; exact List.forall_mem_nil _
    · cases hvalue; exact List.forall_mem_nil _

theorem finite_resolveItems {items : List Json}
    (h : ∀ item ∈ items, ∀ supply, (resolve supply context item).Finite) (supply : Supply) :
    ∀ result ∈ resolveItems supply context items, result.Finite := by
  induction items generalizing supply with
  | nil => nofun
  | cons item rest ih =>
    rw [resolveItems, List.forall_mem_cons]
    exact ⟨h item List.mem_cons_self supply.left,
      ih (fun item' hmem => h item' (List.mem_cons_of_mem item hmem)) supply.right⟩

theorem finite_resolveEntries {fields : Json.Object}
    (h : ∀ field ∈ fields, ∀ supply, (resolve supply context field.2).Finite) (supply : Supply) :
    ∀ entry ∈ resolveEntries supply context fields, entry.2.Finite := by
  induction fields generalizing supply with
  | nil => nofun
  | cons field rest ih =>
    rw [resolveEntries, List.forall_mem_cons]
    exact ⟨h field List.mem_cons_self supply.left.right,
      ih (fun field' hmem => h field' (List.mem_cons_of_mem field hmem)) supply.right⟩

/-- **A finite template in a finite context has a finite result.** -/
theorem finite_resolve (hcontext : context.Finite) {template : Json} (h : template.Finite)
    (supply : Supply) : (resolve supply context template).Finite := by
  induction template using Json.induction generalizing supply with
  | null => exact h
  | bool b => exact h
  | num n => exact h
  | str text =>
    rw [resolve]
    cases hvalue : resolveText supply context text with
    | none => exact List.forall_mem_nil _
    | some value => exact finite_of_resolveText hcontext hvalue
  | arr items ih =>
    rw [resolve, Json.finite_arr]
    rw [Json.finite_arr] at h
    exact finite_resolveItems (fun item hmem supply => ih item hmem (h item hmem) supply) supply
  | obj fields ih =>
    rw [resolve, Json.finite_obj]
    rw [Json.finite_obj] at h
    intro field hfield
    have hentries :=
      finite_resolveEntries (fun field hmem supply => ih field hmem (h field hmem) supply) supply
    exact hentries field (Fields.mem_of_mem_ofEntries hfield)

/-- **Numeric safety.**  A finite template in a finite context has a finite result.  A
    division or a remainder by any zero is the integer zero; a step on numbers is undefined
    exactly if its result on doubles is infinite or no number, and then so is every product
    and sum around it, and the chain when it is such a sum.  No literal is infinite. -/
theorem numbers_stay_finite :
    (∀ (supply : Supply) (context : Context) (template : Json), context.Finite → template.Finite →
      (resolve supply context template).Finite) ∧
    (∀ (op : Operator) (a b : Number), op = .div ∨ op = .rem → b.IsZero →
      op.apply (some (.num a)) (some (.num b)) = some (.num (.integer 0))) ∧
    (∀ (op : Operator) (f : Float → Float → Float) (a b : Number), op.onDoubles? = some f →
      (op.apply (some (.num a)) (some (.num b)) = none ↔
        (f a.toFloat b.toFloat).isFinite = false)) ∧
    (∀ (inner items : List Item) (value : Option Json),
      Grammar.SumAround inner none items value → value = none) ∧
    (∀ (supply : Supply) (context : Context) (chain : Chain Operand) (inner : List Item)
      (value : Option Json),
      Grammar.SumAround inner none (chain.resolved supply context).items value →
      evaluateChain supply context chain.tokens = none) ∧
    (∀ (text : List Char) (n : Number), .literal (.num n) ∈ tokenize text → n.isFinite = true) := by
  refine ⟨?_, ?_, ?_, ?_, ?_, ?_⟩
  · intro supply context template hcontext htemplate
    exact finite_resolve hcontext htemplate supply
  · intro op a b hop hb
    exact Operator.apply_zero hop a hb
  · intro op f a b hdoubles
    exact Operator.apply_num_eq_none_iff hdoubles a b
  · intro inner items value h
    exact h.eq_none
  · intro supply context chain inner value h
    exact evaluateChain_of_sumAround h
  · intro text n hmem
    exact Json.finite_num.mp (finite_of_mem_tokenize hmem)

/-- The largest power of ten is multiplied by ten, and one is added. -/
theorem numbers_stay_finite_overflow :
    (resolve (.constant ⟨"noon", "id"⟩) { extra := [("x", .num (.double 1.5))] }
      (.arr [.num (.integer 1), .str "\x7b\x7bx / 0\x7d\x7d"])).Finite ∧
    Operator.rem.apply (some (.num (.integer 7))) (some (.num (.double (-0.0))))
      = some (.num (.integer 0)) ∧
    Operator.mul.apply (some (.num (.double 1e308))) (some (.num (.integer 10))) = none ∧
    evaluateChain (.constant ⟨"noon", "id"⟩) {}
      (Chain.mk (.literal (.num (.double 1e308)))
        [(.mul, .literal (.num (.integer 10))), (.add, .literal (.num (.integer 1)))]).tokens
      = none ∧
    (Number.double 0.5).isFinite = true := by
  have hstep : Operator.mul.apply (some (.num (.double 1e308))) (some (.num (.integer 10)))
      = none :=
    (numbers_stay_finite.2.2.1 .mul (· * ·) (.double 1e308) (.integer 10) rfl).mpr
      (by decide +kernel)
  refine ⟨?_, ?_, hstep, ?_, ?_⟩
  · exact numbers_stay_finite.1 _ _ _ ⟨by decide, by decide, by decide⟩ (by decide)
  · exact numbers_stay_finite.2.1 .rem _ _ (Or.inr rfl) (Or.inr rfl)
  · have hproduct : Grammar.Product ([.operand (some (.num (.double 1e308)))] ++
        [.operator .mul, .operand (some (.num (.integer 10)))]) none :=
      hstep ▸ .join .mul _ (.operand _) (by decide)
    exact numbers_stay_finite.2.2.2.2.1 _ _ _ _ _
      (.join .add (.product (.itself hproduct)) (by decide) (.operand _))
  · exact numbers_stay_finite.2.2.2.2.2 ".5".toList _ (by decide +kernel)

end Template
end FlowDocs
