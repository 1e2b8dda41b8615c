/-
  FlowDocs/Proofs/Context/Variables.lean
  ======================================
  **The environment is kept in the order of the names.**

  Variables stand ascending by name, whatever order they were given in, so variables
  with the same values are the same list.  Pairs that are ascending already are the
  variables themselves, and that is why an environment that is written out is read back
  as it was.
-/
import FlowDocs.Context
import FlowDocs.Proofs.Json.Entries

namespace FlowDocs.Variables

/-- The names are strictly ascending. -/
def Ascending (env : Variables) : Prop := (Fields.names env).Pairwise (· < ·)

instance (env : Variables) : Decidable env.Ascending :=
  inferInstanceAs (Decidable ((Fields.names env).Pairwise (· < ·)))

theorem get?_set (env : Variables) (name value other : String) :
    Fields.get? (env.set name value) other
      = if other = name then some value else Fields.get? env other := by
  induction env with
  | nil => rw [set, Fields.get?_cons]
  | cons entry rest ih =>
    obtain ⟨n, v⟩ := entry
    rw [set]
    by_cases hsame : n = name
    · subst hsame
      rw [if_pos rfl, Fields.get?_cons, Fields.get?_cons]
      split
      · rfl
      · rfl
    · rw [if_neg hsame]
      split
      · rw [Fields.get?_cons]
      · rw [Fields.get?_cons, Fields.get?_cons, ih]
        by_cases ho : other = n
        · rw [if_pos ho, if_neg (ho.trans_ne hsame), if_pos ho]
        · rw [if_neg ho, if_neg ho]

theorem mem_names_set {env : Variables} {name value other : String} :
    other ∈ Fields.names (env.set name value) ↔ other = name ∨ other ∈ Fields.names env := by
  rw [← not_iff_not, ← Fields.get?_eq_none_iff, get?_set, not_or, ← Fields.get?_eq_none_iff]
  by_cases ho : other = name
  · simp [ho]
  · simp [ho]

theorem ascending_set {env : Variables} (h : env.Ascending) (name value : String) :
    (env.set name value).Ascending := by
  induction env with
  | nil => exact List.pairwise_singleton _ _
  | cons entry rest ih =>
    obtain ⟨n, v⟩ := entry
    obtain ⟨hfirst, hrest⟩ := List.pairwise_cons.mp h
    rw [set]
    by_cases hsame : n = name
    · rw [if_pos hsame, ← hsame]
      exact List.pairwise_cons.mpr ⟨hfirst, hrest⟩
    · rw [if_neg hsame]
      split
      · -- the new name comes before all others
        rename_i hbefore
        refine List.pairwise_cons.mpr ⟨?_, h⟩
        intro other hother
        rcases List.mem_cons.mp hother with rfl | hother
        · exact hbefore
        · exact String.lt_trans hbefore (hfirst other hother)
      · rename_i hbefore
        have hafter : n < name := lt_of_le_of_ne (not_lt.mp hbefore) hsame
        refine List.pairwise_cons.mpr ⟨?_, ih hrest⟩
        intro other hother
        rcases mem_names_set.mp hother with rfl | hother
        · exact hafter
        · exact hfirst other hother

theorem set_of_last {env : Variables} {name : String} (h : ∀ other ∈ Fields.names env, other < name)
    (value : String) : env.set name value = env ++ [(name, value)] := by
  induction env with
  | nil => rfl
  | cons entry rest ih =>
    obtain ⟨n, v⟩ := entry
    have hn : n < name := h n List.mem_cons_self
    have hrest := ih fun other hother => h other (List.mem_cons_of_mem n hother)
    rw [set, if_neg hn.ne, if_neg (lt_asymm hn), hrest, List.cons_append]

/-! ### Pairs one after another -/

def setAll (env : Variables) (pairs : List (String × String)) : Variables :=
  pairs.foldl (fun env pair => env.set pair.1 pair.2) env

theorem ascending_setAll {env : Variables} (h : env.Ascending) (pairs : List (String × String)) :
    (env.setAll pairs).Ascending := by
  induction pairs generalizing env with
  | nil => exact h
  | cons pair rest ih => exact ih (ascending_set h pair.1 pair.2)

theorem ascending_ofPairs (pairs : List (String × String)) : (ofPairs pairs).Ascending :=
  @ascending_setAll [] List.Pairwise.nil pairs

theorem setAll_of_ascending {env : Variables} {pairs : List (String × String)}
    (h : Ascending (env ++ pairs)) : env.setAll pairs = env ++ pairs := by
  induction pairs generalizing env with
  | nil => exact (List.append_nil env).symm
  | cons pair rest ih =>
    obtain ⟨name, value⟩ := pair
    have hlast : ∀ other ∈ Fields.names env, other < name := by
      rw [Ascending, Fields.names, List.map_append, List.pairwise_append] at h
      exact fun other hother => h.2.2 other hother name List.mem_cons_self
    change (env.set name value).setAll rest = _
    rw [set_of_last hlast, ih (by rwa [List.append_assoc]), List.append_assoc]
    rfl

/-- The last pair of a name decides its value. -/
theorem get?_ofPairs (pairs : List (String × String)) (name : String) :
    Fields.get? (ofPairs pairs) name = Fields.get? pairs.reverse name := by
  rw [ofPairs, Fields.get?_foldl get?_set, Fields.get?_nil, Option.or_none]

end FlowDocs.Variables
