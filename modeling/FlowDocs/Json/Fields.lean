/-
  FlowDocs/Json/Fields.lean
  =========================
  **Named values in order.**

  The fields of an object keep the order in which their names first appeared.
  Setting a name again replaces its value in place, so a list built by `set`
  alone never repeats a name.  Taking a field out moves the last field into the
  gap: that is the one operation that changes the order of the others; leaving a
  field out does not.  Laying fields over others sets the values of the names they
  share and adds the rest at the end.
-/

namespace FlowDocs

/-- Named values in order. -/
abbrev Fields (α : Type) := List (String × α)

namespace Fields

variable {α : Type}

def get? (fields : Fields α) (name : String) : Option α := fields.lookup name

def names (fields : Fields α) : List String := fields.map Prod.fst

/-- Give a name a value: in its place if the name is there, else at the end. -/
def set (fields : Fields α) (name : String) (value : α) : Fields α :=
  match fields with
  | [] => [(name, value)]
  | (n, v) :: rest =>
    if n = name then (n, value) :: rest else (n, v) :: set rest name value

def setAll (fields : Fields α) (entries : List (String × α)) : Fields α :=
  entries.foldl (fun fields entry => set fields entry.1 entry.2) fields

/-- The fields of a sequence of entries: a repeated name keeps its first place and
    takes its last value. -/
def ofEntries (entries : List (String × α)) : Fields α := setAll [] entries

/-- Take a name out; the last field moves into the gap. -/
def extract (fields : Fields α) (name : String) : Option α × Fields α :=
  match get? fields name, fields.getLast? with
  | some value, some last =>
    (some value, (fields.map fun entry => if entry.1 = name then last else entry).dropLast)
  | _, _ => (none, fields)

/-- Leave a name out; the others keep their order. -/
def erase (fields : Fields α) (name : String) : Fields α :=
  fields.filter fun entry => entry.1 ≠ name

/-- Lay fields over others: a name of both keeps its place below and takes its value
    from above; the other names from above come last. -/
def overlay (lower upper : Fields α) : Fields α :=
  (lower.map fun entry => (entry.1, (get? upper entry.1).getD entry.2)) ++
    upper.filter fun entry => entry.1 ∉ names lower

@[simp] theorem get?_nil (name : String) : get? ([] : Fields α) name = none := rfl

theorem get?_cons (n : String) (v : α) (rest : Fields α) (name : String) :
    get? ((n, v) :: rest) name = if name = n then some v else get? rest name := by
  by_cases h : name = n
  · simp [get?, h]
  · have h' : (name == n) = false := by simpa using h
    simp [get?, List.lookup_cons, h, h']

theorem get?_set (fields : Fields α) (name : String) (value : α) (other : String) :
    get? (set fields name value) other
      = if other = name then some value else get? fields other := by
  induction fields with
  | nil => simp [set, get?_cons]
  | cons entry rest ih =>
    obtain ⟨n, v⟩ := entry
    by_cases h : n = name
    · subst h
      by_cases ho : other = n <;> simp [set, get?_cons, ho]
    · by_cases ho : other = n
      · subst ho; simp [set, get?_cons, h]
      · simp [set, get?_cons, h, ho, ih]

/-- Setting keeps the names, or adds the new one at the end. -/
theorem names_set (fields : Fields α) (name : String) (value : α) :
    names (set fields name value)
      = if name ∈ names fields then names fields else names fields ++ [name] := by
  induction fields with
  | nil => simp [set, names]
  | cons entry rest ih =>
    obtain ⟨n, v⟩ := entry
    by_cases h : n = name
    · subst h; simp [set, names]
    · have h' : ¬ name = n := fun e => h e.symm
      simp only [names] at ih
      by_cases hm : name ∈ rest.map Prod.fst <;> simp_all [set, names]

theorem get?_eq_none_iff {fields : Fields α} {name : String} :
    get? fields name = none ↔ name ∉ names fields := by
  simp only [get?, names, List.lookup_eq_none_iff, List.mem_map, not_exists, not_and, bne_iff_ne]
  exact ⟨fun h entry hmem e => h entry hmem e.symm, fun h entry hmem e => h entry hmem e.symm⟩

theorem get?_append (fields more : Fields α) (name : String) :
    get? (fields ++ more) name = (get? fields name).or (get? more name) :=
  List.lookup_append

theorem get?_filter (keep : String → Bool) (fields : Fields α) (name : String) :
    get? (fields.filter fun entry => keep entry.1) name
      = if keep name then get? fields name else none := by
  induction fields with
  | nil => simp
  | cons entry rest ih =>
    obtain ⟨n, v⟩ := entry
    by_cases hn : name = n
    · subst hn
      cases hkeep : keep name <;> simp [hkeep, get?_cons, ih]
    · cases hkeep : keep n <;> simp [hkeep, get?_cons, hn, ih]

theorem get?_erase (fields : Fields α) (name other : String) :
    get? (erase fields name) other = if other = name then none else get? fields other := by
  have hfilter := get?_filter (fun n => decide (n ≠ name)) fields other
  rw [erase, hfilter]
  by_cases h : other = name <;> simp [h]

theorem get?_map {β : Type} (change : String → α → β) (fields : Fields α) (name : String) :
    get? (fields.map fun entry => (entry.1, change entry.1 entry.2)) name
      = (get? fields name).map (change name) := by
  induction fields with
  | nil => rfl
  | cons entry rest ih =>
    obtain ⟨n, v⟩ := entry
    by_cases hn : name = n
    · subst hn; simp [get?_cons]
    · simp only [List.map_cons, get?_cons, if_neg hn, ih]

/-- The fields above come first. -/
theorem get?_overlay (lower upper : Fields α) (name : String) :
    get? (overlay lower upper) name = (get? upper name).or (get? lower name) := by
  have hlower := get?_map (fun n v => (get? upper n).getD v) lower name
  have hupper := get?_filter (fun n => decide (n ∉ names lower)) upper name
  rw [overlay, get?_append, hlower, hupper]
  cases hget : get? lower name with
  | some value => cases get? upper name <;> rfl
  | none =>
    have hmem : name ∉ names lower := get?_eq_none_iff.mp hget
    simp [hmem]

example : (extract [("a", 1), ("b", 2), ("c", 3)] "a") = (some 1, [("c", 3), ("b", 2)]) := by decide
example : ofEntries [("a", 1), ("b", 2), ("a", 3)] = [("a", 3), ("b", 2)] := by decide

end Fields
end FlowDocs
