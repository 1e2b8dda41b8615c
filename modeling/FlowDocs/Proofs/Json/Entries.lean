/-
  FlowDocs/Proofs/Json/Entries.lean
  =================================
  **Fields built from entries.**

  The fields of an object are built by giving one name after another its value.  What
  comes out is determined by the entries: each name stands where it first occurs, no name
  stands twice, and the last entry of a name decides its value.  Entries without a
  repeated name are the fields themselves.
-/
import FlowDocs.Json.Fields
import Mathlib

namespace FlowDocs.Fields

variable {α : Type}

theorem set_of_not_mem {fields : Fields α} {name : String} (h : name ∉ names fields) (value : α) :
    set fields name value = fields ++ [(name, value)] := by
  induction fields with
  | nil => rfl
  | cons entry rest ih =>
    obtain ⟨n, v⟩ := entry
    simp only [names, List.map_cons, List.mem_cons, not_or] at h
    rw [set, if_neg (Ne.symm h.1), ih h.2, List.cons_append]

theorem not_mem_front {front back : Fields α} {name : String} {value : α}
    (h : (names (front ++ (name, value) :: back)).Nodup) : name ∉ names front := by
  rw [names, List.map_append, List.nodup_append'] at h
  exact fun hmem => h.2.2 hmem List.mem_cons_self

theorem set_middle {α : Type} {front back : Fields α} {name : String} {old : α}
    (h : name ∉ names front) (value : α) :
    set (front ++ (name, old) :: back) name value = front ++ (name, value) :: back := by
  induction front with
  | nil => rw [List.nil_append, set, if_pos rfl, List.nil_append]
  | cons entry front ih =>
    obtain ⟨n, v⟩ := entry
    rw [names, List.map_cons, List.mem_cons, not_or] at h
    rw [List.cons_append, set, if_neg (Ne.symm h.1), ih h.2, List.cons_append]

theorem mem_set {α : Type} {fields : Fields α} {name : String} {value : α}
    {entry : String × α} (h : entry ∈ set fields name value) :
    entry = (name, value) ∨ entry ∈ fields := by
  induction fields with
  | nil => exact Or.inl (List.mem_singleton.mp h)
  | cons first rest ih =>
    obtain ⟨n, v⟩ := first
    rw [set] at h
    split at h
    · rename_i hname
      rcases List.mem_cons.mp h with rfl | hmem
      · exact Or.inl (by rw [hname])
      · exact Or.inr (List.mem_cons_of_mem _ hmem)
    · rcases List.mem_cons.mp h with rfl | hmem
      · exact Or.inr List.mem_cons_self
      · exact (ih hmem).imp_right (List.mem_cons_of_mem _)

theorem nodup_names_set {fields : Fields α} (h : (names fields).Nodup) (name : String) (value : α) :
    (names (set fields name value)).Nodup := by
  rw [names_set]
  split
  · exact h
  · rename_i hmem
    rw [List.nodup_append']
    exact ⟨h, List.nodup_singleton name, by simpa using hmem⟩

theorem nodup_names_setAll {fields : Fields α} (h : (names fields).Nodup)
    (entries : List (String × α)) : (names (setAll fields entries)).Nodup := by
  induction entries generalizing fields with
  | nil => exact h
  | cons entry rest ih => exact ih (nodup_names_set h entry.1 entry.2)

theorem nodup_names_ofEntries (entries : List (String × α)) : (names (ofEntries entries)).Nodup :=
  @nodup_names_setAll _ [] List.nodup_nil entries

/-- New names come behind the old ones, each where it first occurs. -/
theorem names_setAll (fields : Fields α) (entries : List (String × α)) :
    names (setAll fields entries)
      = names fields ++ ((names entries).filter (· ∉ names fields)).eraseDups := by
  induction entries generalizing fields with
  | nil => simp [setAll, names]
  | cons entry rest ih =>
    obtain ⟨name, value⟩ := entry
    have hstep := ih (set fields name value)
    rw [names_set] at hstep
    change names (setAll (set fields name value) rest) = _
    rw [hstep]
    by_cases hmem : name ∈ names fields
    · -- the name has its place already
      have hnames : (names ((name, value) :: rest)).filter (· ∉ names fields)
          = (names rest).filter (· ∉ names fields) :=
        List.filter_cons_of_neg (by simpa using hmem)
      rw [if_pos hmem, hnames]
    · have hnames : (names ((name, value) :: rest)).filter (· ∉ names fields)
          = name :: (names rest).filter (· ∉ names fields) :=
        List.filter_cons_of_pos (by simpa using hmem)
      have hlater : (names rest).filter (· ∉ names fields ++ [name])
          = ((names rest).filter (· ∉ names fields)).filter fun other => !other == name := by
        rw [List.filter_filter]
        apply List.filter_congr
        intro other _
        simp [and_comm, beq_eq_decide]
      rw [if_neg hmem, hnames, List.eraseDups_cons, hlater, List.append_assoc,
        List.singleton_append]

/-- Each name stands where it first occurs. -/
theorem names_ofEntries (entries : List (String × α)) :
    names (ofEntries entries) = (names entries).eraseDups := by
  have hall : (names entries).filter (· ∉ names ([] : Fields α)) = names entries :=
    List.filter_eq_self.mpr fun _ _ => by simp [names]
  rw [ofEntries, names_setAll, hall]
  rfl

/-- However values are given to names: after a sequence of entries the last one of a name
    counts, and without one the name has the value it had. -/
theorem get?_foldl {give : Fields α → String → α → Fields α}
    (hgive : ∀ fields name value other, get? (give fields name value) other
      = if other = name then some value else get? fields other)
    (fields : Fields α) (entries : List (String × α)) (name : String) :
    get? (entries.foldl (fun fields entry => give fields entry.1 entry.2) fields) name
      = (get? entries.reverse name).or (get? fields name) := by
  induction entries generalizing fields with
  | nil => rfl
  | cons entry rest ih =>
    obtain ⟨n, v⟩ := entry
    rw [List.foldl_cons, ih, List.reverse_cons, get?_append, hgive, get?_cons, get?_nil,
      Option.or_assoc]
    congr 1
    split
    · rfl
    · rfl

/-- The last entry of a name decides its value. -/
theorem get?_ofEntries (entries : List (String × α)) (name : String) :
    get? (ofEntries entries) name = get? entries.reverse name := by
  rw [ofEntries, setAll, get?_foldl get?_set, get?_nil, Option.or_none]

theorem get?_reverse_of_last {entries : List (String × α)} {i : Nat} {name : String} {value : α}
    (hentry : entries[i]? = some (name, value))
    (hlast : ∀ j, i < j → (names entries)[j]? ≠ some name) :
    get? entries.reverse name = some value := by
  induction entries generalizing i with
  | nil => cases hentry
  | cons entry rest ih =>
    rw [List.reverse_cons, get?_append]
    cases i with
    | zero =>
      obtain rfl : entry = (name, value) := Option.some.inj hentry
      have hrest : name ∉ names rest.reverse := by
        intro hmem
        rw [names, List.map_reverse, List.mem_reverse] at hmem
        obtain ⟨j, hj⟩ := List.mem_iff_getElem?.mp hmem
        exact hlast (j + 1) (Nat.succ_pos j) hj
      rw [get?_eq_none_iff.mpr hrest, Option.none_or, get?_cons, if_pos rfl]
    | succ i =>
      rw [ih hentry fun j hj => hlast (j + 1) (Nat.succ_lt_succ hj), Option.some_or]

theorem mem_of_get? {fields : Fields α} {name : String} {value : α}
    (h : get? fields name = some value) : (name, value) ∈ fields := by
  obtain ⟨front, back, rfl, -⟩ := List.lookup_eq_some_iff.mp h
  exact List.mem_append_right front List.mem_cons_self

theorem get?_eq_some_iff {fields : Fields α} (h : (names fields).Nodup) {name : String}
    {value : α} : get? fields name = some value ↔ (name, value) ∈ fields := by
  induction fields with
  | nil => simp
  | cons entry rest ih =>
    obtain ⟨n, v⟩ := entry
    obtain ⟨hn, hrest⟩ := List.nodup_cons.mp h
    rw [get?_cons, List.mem_cons, Prod.mk.injEq]
    by_cases hname : name = n
    · subst hname
      have hnot : (name, value) ∉ rest := fun hmem => hn (List.mem_map.mpr ⟨_, hmem, rfl⟩)
      simp [hnot, eq_comm]
    · simp [hname, ih hrest]

theorem mem_of_mem_ofEntries {entries : List (String × α)} {entry : String × α}
    (h : entry ∈ ofEntries entries) : entry ∈ entries := by
  have hget := (get?_eq_some_iff (nodup_names_ofEntries entries)).mpr h
  rw [get?_ofEntries] at hget
  exact List.mem_reverse.mp (mem_of_get? hget)

/-- Without a repeated name the order of the fields does not matter to a lookup. -/
theorem get?_perm {fields fields' : Fields α} (hperm : fields.Perm fields')
    (h : (names fields).Nodup) (name : String) : get? fields name = get? fields' name := by
  have h' : (names fields').Nodup := (hperm.map Prod.fst).nodup_iff.mp h
  apply Option.ext
  intro value
  rw [get?_eq_some_iff h, get?_eq_some_iff h', hperm.mem_iff]

theorem setAll_of_nodup {fields : Fields α} {entries : List (String × α)}
    (h : (names (fields ++ entries)).Nodup) : setAll fields entries = fields ++ entries := by
  induction entries generalizing fields with
  | nil => exact (List.append_nil fields).symm
  | cons entry rest ih =>
    obtain ⟨name, value⟩ := entry
    have hname : name ∉ names fields := by
      rw [names, List.map_append, List.nodup_append'] at h
      exact fun hmem => h.2.2 hmem List.mem_cons_self
    change setAll (set fields name value) rest = _
    rw [set_of_not_mem hname, ih (by rwa [List.append_assoc]), List.append_assoc]
    rfl

/-- Without a repeated name the entries are the fields. -/
theorem ofEntries_of_nodup {entries : List (String × α)} (h : (names entries).Nodup) :
    ofEntries entries = entries :=
  setAll_of_nodup h

end FlowDocs.Fields
