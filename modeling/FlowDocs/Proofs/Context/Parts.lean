/-
  FlowDocs/Proofs/Context/Parts.lean
  ==================================
  **The parts of a context and its extra fields are apart.**

  A context that was read from a value has no extra field with the name of a part:
  the parts were taken out first.  Taking a name out moves the last field into the
  gap, so the fields come in another order than if the name had been left out, but
  they are the same ones.
-/
import FlowDocs.Context
import FlowDocs.Proofs.Json.Entries

namespace FlowDocs

namespace Fields

variable {α : Type}

theorem ne_of_not_mem_names {fields : Fields α} {name : String} (h : name ∉ names fields)
    {entry : String × α} (hmem : entry ∈ fields) : entry.1 ≠ name := by
  rintro rfl
  exact h (List.mem_map_of_mem hmem)

theorem erase_of_not_mem {fields : Fields α} {name : String} (h : name ∉ names fields) :
    erase fields name = fields := by
  apply List.filter_eq_self.mpr
  intro entry hmem
  simpa using ne_of_not_mem_names h hmem

theorem map_replace_of_not_mem {fields : Fields α} {name : String} (h : name ∉ names fields)
    (other : String × α) :
    (fields.map fun entry => if entry.1 = name then other else entry) = fields := by
  have hsame : ∀ entry ∈ fields, (if entry.1 = name then other else entry) = entry := by
    intro entry hmem
    exact if_neg (ne_of_not_mem_names h hmem)
  rw [List.map_congr_left hsame, List.map_id']

theorem extract_of_get? {fields : Fields α} {name : String} {value : α} {last : String × α}
    (hget : get? fields name = some value) (hlast : fields.getLast? = some last) :
    extract fields name
      = (some value, (fields.map fun entry => if entry.1 = name then last else entry).dropLast) := by
  rw [extract, hget, hlast]

/-- Taking a name out leaves the fields that leaving it out does, in some order. -/
theorem extract_perm_erase {fields : Fields α} (h : (names fields).Nodup) (name : String) :
    (extract fields name).2.Perm (erase fields name) := by
  cases hget : get? fields name with
  | none =>
    have hextract : (extract fields name).2 = fields := by simp [extract, hget]
    rw [hextract, erase_of_not_mem (get?_eq_none_iff.mp hget)]
  | some value =>
    obtain ⟨front, back, hfields, -⟩ := List.lookup_eq_some_iff.mp hget
    subst hfields
    have hnames : names (front ++ (name, value) :: back) = names front ++ name :: names back := by
      simp [names]
    rw [hnames, List.nodup_append'] at h
    obtain ⟨-, hrest, hdisjoint⟩ := h
    have hfront : name ∉ names front := fun hmem => hdisjoint hmem List.mem_cons_self
    have hback : name ∉ names back := (List.nodup_cons.mp hrest).1
    have herase : erase (front ++ (name, value) :: back) name = front ++ back := by
      have hf := erase_of_not_mem hfront
      have hb := erase_of_not_mem hback
      simp only [erase] at hf hb ⊢
      rw [List.filter_append, List.filter_cons_of_neg (by simp), hf, hb]
    rw [herase]
    rcases List.eq_nil_or_concat back with rfl | ⟨middle, last, rfl⟩
    · -- the name came last, and there is nothing to move
      rw [extract_of_get? hget List.getLast?_concat, List.map_append,
        map_replace_of_not_mem hfront]
      simp
    · have hlast : (front ++ (name, value) :: middle.concat last).getLast? = some last := by
        simp [List.getLast?_append, List.getLast?_cons]
      have hreplaced := map_replace_of_not_mem hback last
      rw [extract_of_get? hget hlast, List.map_append, List.map_cons,
        map_replace_of_not_mem hfront, hreplaced, if_pos rfl, List.concat_eq_append,
        ← List.cons_append, ← List.append_assoc, List.dropLast_concat]
      exact (List.perm_append_singleton last middle).symm.append_left front

theorem mem_names_extract {fields : Fields α} (h : (names fields).Nodup) {name other : String} :
    other ∈ names (extract fields name).2 ↔ other ∈ names fields ∧ other ≠ name := by
  have hperm := ((extract_perm_erase h name).map Prod.fst).mem_iff (a := other)
  rw [names, hperm]
  simp only [erase, names, List.mem_map, List.mem_filter, decide_eq_true_eq]
  constructor
  · rintro ⟨entry, ⟨hmem, hne⟩, rfl⟩
    exact ⟨⟨entry, hmem, rfl⟩, hne⟩
  · rintro ⟨⟨entry, hmem, rfl⟩, hne⟩
    exact ⟨entry, ⟨hmem, hne⟩, rfl⟩

theorem nodup_names_extract {fields : Fields α} (h : (names fields).Nodup) (name : String) :
    (names (extract fields name).2).Nodup := by
  have hperm := (extract_perm_erase h name).map Prod.fst
  rw [names, hperm.nodup_iff]
  exact h.sublist (List.filter_sublist.map Prod.fst)

theorem fst_extract (fields : Fields α) (name : String) :
    (extract fields name).1 = get? fields name := by
  rw [extract]
  cases hget : get? fields name with
  | none => rfl
  | some value =>
    cases hlast : fields.getLast? with
    | some last => rfl
    | none =>
      rw [List.getLast?_eq_none_iff.mp hlast] at hget
      cases hget

/-- What is moved into the gap is still found under its name. -/
theorem get?_extract {fields : Fields α} (h : (names fields).Nodup) (name other : String) :
    get? (extract fields name).2 other = if other = name then none else get? fields other := by
  rw [get?_perm (extract_perm_erase h name) (nodup_names_extract h name), get?_erase]

end Fields

namespace Context

/-- No extra field has the name of a part. -/
def Separate (context : Context) : Prop :=
  ∀ name ∈ ["inputs", "steps", "env"], name ∉ Fields.names context.extra

instance (context : Context) : Decidable context.Separate :=
  inferInstanceAs (Decidable (∀ name ∈ ["inputs", "steps", "env"], name ∉ Fields.names context.extra))

theorem extra_ofJson (fields : Json.Object) :
    (ofJson (.obj fields)).extra
      = (Fields.extract (Fields.extract (Fields.extract fields "inputs").2 "steps").2 "env").2 :=
  rfl

/-- Whatever value a context is read from, its extra fields are apart from its parts. -/
theorem separate_ofJson {value : Json}
    (h : ∀ fields ∈ value.fields?, (Fields.names fields).Nodup) : (ofJson value).Separate := by
  cases value with
  | obj fields =>
    have hinputs := h fields rfl
    have hsteps := Fields.nodup_names_extract hinputs "inputs"
    have henv := Fields.nodup_names_extract hsteps "steps"
    intro name hname hmem
    rw [extra_ofJson, Fields.mem_names_extract henv, Fields.mem_names_extract hsteps,
      Fields.mem_names_extract hinputs] at hmem
    simp only [List.mem_cons, List.not_mem_nil, or_false] at hname
    obtain ⟨⟨⟨-, hninputs⟩, hnsteps⟩, hnenv⟩ := hmem
    rcases hname with rfl | rfl | rfl
    · exact hninputs rfl
    · exact hnsteps rfl
    · exact hnenv rfl
  | null => intro name _; exact List.not_mem_nil
  | bool b => intro name _; exact List.not_mem_nil
  | num n => intro name _; exact List.not_mem_nil
  | str text => intro name _; exact List.not_mem_nil
  | arr items => intro name _; exact List.not_mem_nil

end Context
end FlowDocs
