/-
  FlowDocs/Proofs/Json/RoundTrip.lean
  ===================================
  **Values are read back from their text.**

  The compact and the indented text of a value differ in nothing but the layout between
  their parts.  `Style.text` writes a value with any layout, and the reader gives the value
  back whatever that layout is: by induction on the value, each part is read up to where
  the text of the next one starts.  The value has to be `Readable`: without doubles, and
  nested no deeper than the reader follows.
-/
import FlowDocs.Proofs.Json.Induction
import FlowDocs.Proofs.Json.Reading

namespace FlowDocs.Json

/-! ### Texts with any layout -/

/-- The layout of a text: in front of an item and of a closing bracket, by their level of
    nesting, and behind a colon. -/
structure Style where
  before : Nat → List Char
  afterColon : List Char
  isGap_before : ∀ level, IsGap (before level)
  isGap_afterColon : IsGap afterColon

namespace Style

mutual

/-- The text of a value that stands at a level of nesting. -/
def text (style : Style) (level : Nat) : Json → List Char
  | .null => ['n', 'u', 'l', 'l']
  | .bool b => boolText b
  | .num n => numberText n
  | .str s => stringText s
  | .arr [] => ['[', ']']
  | .arr (x :: xs) =>
    '[' :: style.before (level + 1) ++ text style (level + 1) x ++ itemsText style level xs
  | .obj [] => ['\x7b', '\x7d']
  | .obj ((name, value) :: rest) =>
    '\x7b' :: style.before (level + 1) ++ stringText name ++ ':' :: style.afterColon ++
      text style (level + 1) value ++ fieldsText style level rest

/-- The items after the first, and the closing bracket. -/
def itemsText (style : Style) (level : Nat) : List Json → List Char
  | [] => style.before level ++ [']']
  | x :: xs =>
    ',' :: style.before (level + 1) ++ text style (level + 1) x ++ itemsText style level xs

/-- The fields after the first, and the closing brace. -/
def fieldsText (style : Style) (level : Nat) : List (String × Json) → List Char
  | [] => style.before level ++ ['\x7d']
  | (name, value) :: rest =>
    ',' :: style.before (level + 1) ++ stringText name ++ ':' :: style.afterColon ++
      text style (level + 1) value ++ fieldsText style level rest

end

def dense : Style := ⟨fun _ => [], [], fun _ => List.forall_mem_nil _, List.forall_mem_nil _⟩

theorem isGap_newLine (level : Nat) : IsGap (newLine level) := by
  rintro c (_ | ⟨_, hmem⟩)
  · rfl
  · rw [List.eq_of_mem_replicate hmem]; rfl

def indented : Style := ⟨newLine, [' '], isGap_newLine, List.forall_mem_singleton.mpr rfl⟩

mutual

theorem dense_text (level : Nat) : ∀ value, dense.text level value = compactText value
  | .null | .bool _ | .num _ | .str _ | .arr [] | .obj [] => rfl
  | .arr (x :: xs) => by
    rw [text, dense_text (level + 1) x, dense_itemsText level xs]
    rfl
  | .obj ((name, value) :: rest) => by
    rw [text, dense_text (level + 1) value, dense_fieldsText level rest, compactText]
    simp only [dense, List.append_assoc, List.cons_append, List.nil_append]

theorem dense_itemsText (level : Nat) : ∀ items, dense.itemsText level items = compactItems items
  | [] => rfl
  | x :: xs => by
    rw [itemsText, dense_text (level + 1) x, dense_itemsText level xs]
    rfl

theorem dense_fieldsText (level : Nat) :
    ∀ fields, dense.fieldsText level fields = compactFields fields
  | [] => rfl
  | (name, value) :: rest => by
    rw [fieldsText, dense_text (level + 1) value, dense_fieldsText level rest, compactFields]
    simp only [dense, List.append_assoc, List.cons_append, List.nil_append]

end

mutual

theorem indented_text (level : Nat) : ∀ value, indented.text level value = prettyText level value
  | .null | .bool _ | .num _ | .str _ | .arr [] | .obj [] => rfl
  | .arr (x :: xs) => by
    rw [text, indented_text (level + 1) x, indented_itemsText level xs]
    rfl
  | .obj ((name, value) :: rest) => by
    rw [text, indented_text (level + 1) value, indented_fieldsText level rest, prettyText]
    simp only [indented, List.append_assoc, List.cons_append, List.nil_append]

theorem indented_itemsText (level : Nat) :
    ∀ items, indented.itemsText level items = prettyItems level items
  | [] => rfl
  | x :: xs => by
    rw [itemsText, indented_text (level + 1) x, indented_itemsText level xs]
    rfl

theorem indented_fieldsText (level : Nat) :
    ∀ fields, indented.fieldsText level fields = prettyFields level fields
  | [] => rfl
  | (name, value) :: rest => by
    rw [fieldsText, indented_text (level + 1) value, indented_fieldsText level rest, prettyFields]
    simp only [indented, List.append_assoc, List.cons_append, List.nil_append]

end

/-! ### Reading the text -/

/-- Whatever follows it, the text of the value is read as the value.  Each call of a reader
    takes one from the fuel, and the text of a part is shorter than that of the whole. -/
def ReadsBack (style : Style) (depth : Nat) (value : Json) : Prop :=
  ∀ level fuel rest, EndsNumber rest → (style.text level value).length ≤ fuel →
    readValue (fuel + 1) depth (style.text level value ++ rest) = .ok (value, rest)

theorem endsNumber_itemsText (style : Style) (level : Nat) (items : List Json) (rest : List Char) :
    EndsNumber (style.itemsText level items ++ rest) := by
  cases items with
  | nil =>
    rw [itemsText, List.append_assoc]
    refine endsNumber_gap (style.isGap_before level) ?_
    rintro c ⟨⟩
    decide
  | cons x xs =>
    rw [itemsText]
    rintro c ⟨⟩
    decide

theorem endsNumber_fieldsText (style : Style) (level : Nat) (fields : Object) (rest : List Char) :
    EndsNumber (style.fieldsText level fields ++ rest) := by
  cases fields with
  | nil =>
    rw [fieldsText, List.append_assoc]
    refine endsNumber_gap (style.isGap_before level) ?_
    rintro c ⟨⟩
    decide
  | cons field rest =>
    obtain ⟨name, value⟩ := field
    rw [fieldsText]
    rintro c ⟨⟩
    decide

variable {style : Style} {depth level : Nat}

theorem readItems_itemsText {items : List Json} (hread : ∀ x ∈ items, style.ReadsBack depth x)
    {fuel : Nat} (hfuel : (style.itemsText level items).length ≤ fuel) (rest : List Char) :
    readItems (fuel + 1) depth (style.itemsText level items ++ rest) = .ok (items, rest) := by
  induction items generalizing fuel with
  | nil =>
    rw [itemsText, List.append_assoc, List.singleton_append]
    exact readItems_close (style.isGap_before level) rest
  | cons x xs ih =>
    obtain ⟨hx, hxs⟩ := List.forall_mem_cons.mp hread
    rw [itemsText, List.length_append, List.length_append, List.length_cons] at hfuel
    obtain ⟨fuel, rfl⟩ := Nat.exists_eq_add_one_of_ne_zero (n := fuel) (by omega)
    rw [itemsText, List.append_assoc, List.append_assoc, List.cons_append]
    exact readItems_next (style.isGap_before (level + 1))
      (hx (level + 1) fuel _ (endsNumber_itemsText style level xs rest) (by omega))
      (ih hxs (by omega))

theorem readMember_field (name : String) {value : Json} (hread : style.ReadsBack depth value)
    {fuel : Nat} (hfuel : (style.text level value).length < fuel) {rest : List Char}
    (hend : EndsNumber rest) :
    readMember (fuel + 1) depth (name.toList.flatMap escaped ++ '"' :: ':' ::
      (style.afterColon ++ (style.text level value ++ rest))) = .ok ((name, value), rest) := by
  obtain ⟨fuel, rfl⟩ := Nat.exists_eq_add_one_of_ne_zero (Nat.ne_zero_of_lt hfuel)
  apply readMember_of_value
  rw [readValue_gap style.isGap_afterColon]
  exact hread level fuel rest hend (Nat.le_of_lt_succ hfuel)

theorem readMembers_fieldsText {fields : Object}
    (hread : ∀ field ∈ fields, style.ReadsBack depth field.2) {fuel : Nat}
    (hfuel : (style.fieldsText level fields).length ≤ fuel) (rest : List Char) :
    readMembers (fuel + 1) depth (style.fieldsText level fields ++ rest) = .ok (fields, rest) := by
  induction fields generalizing fuel with
  | nil =>
    rw [fieldsText, List.append_assoc, List.singleton_append]
    exact readMembers_close (style.isGap_before level) rest
  | cons field fields ih =>
    obtain ⟨name, value⟩ := field
    have hvalue : style.ReadsBack depth value := hread _ List.mem_cons_self
    have hfields := fun field hmem => hread field (List.mem_cons_of_mem _ hmem)
    simp only [fieldsText, List.length_append, List.length_cons] at hfuel
    obtain ⟨fuel, rfl⟩ := Nat.exists_eq_add_one_of_ne_zero (n := fuel) (by omega)
    simp only [fieldsText, List.append_assoc, List.cons_append, stringText_append]
    exact readMembers_next (style.isGap_before (level + 1))
      (readMember_field name hvalue (by omega) (endsNumber_fieldsText style level fields rest))
      (ih hfields (by omega))

/-- **Reading undoes writing**, whatever the layout. -/
theorem readsBack (style : Style) {bound : Nat} {value : Json} (h : Readable bound value) :
    style.ReadsBack bound value := by
  induction value using Json.induction generalizing bound with
  | null =>
    intro level fuel rest _ _
    exact readValue_null rest
  | bool b =>
    intro level fuel rest _ _
    exact readValue_bool b rest
  | num n =>
    intro level fuel rest hend _
    obtain ⟨k, rfl, hword⟩ := h.num
    exact readValue_integer hword hend
  | str s =>
    intro level fuel rest _ _
    exact readValue_string s rest
  | arr items ih =>
    intro level fuel rest _ hfuel
    obtain ⟨bound, rfl⟩ := Nat.exists_eq_add_one_of_ne_zero (Nat.ne_zero_of_lt h.depth)
    have hread : ∀ x ∈ items, style.ReadsBack bound x :=
      fun x hmem => ih x hmem (readable_arr.mp h x hmem)
    cases items with
    | nil => exact readValue_emptyList rest
    | cons x xs =>
      obtain ⟨hx, hxs⟩ := List.forall_mem_cons.mp hread
      rw [text, List.length_append, List.length_append, List.length_cons] at hfuel
      obtain ⟨fuel, rfl⟩ := Nat.exists_eq_add_one_of_ne_zero (n := fuel) (by omega)
      rw [text, List.append_assoc, List.append_assoc, List.cons_append]
      exact readValue_list (style.isGap_before (level + 1))
        (hx (level + 1) fuel _ (endsNumber_itemsText style level xs rest) (by omega))
        (readItems_itemsText hxs (by omega) rest)
  | obj fields ih =>
    intro level fuel rest _ hfuel
    obtain ⟨bound, rfl⟩ := Nat.exists_eq_add_one_of_ne_zero (Nat.ne_zero_of_lt h.depth)
    obtain ⟨hnodup, hfields⟩ := readable_obj.mp h
    have hread : ∀ field ∈ fields, style.ReadsBack bound field.2 :=
      fun field hmem => ih field hmem (hfields field hmem)
    cases fields with
    | nil => exact readValue_emptyObject rest
    | cons field fields =>
      obtain ⟨name, value⟩ := field
      have hvalue : style.ReadsBack bound value := hread _ List.mem_cons_self
      have hmore := fun field hmem => hread field (List.mem_cons_of_mem _ hmem)
      simp only [text, List.length_append, List.length_cons] at hfuel
      obtain ⟨fuel, rfl⟩ := Nat.exists_eq_add_one_of_ne_zero (n := fuel) (by omega)
      simp only [text, List.append_assoc, List.cons_append, stringText_append]
      have hlength : (style.text (level + 1) value).length < fuel := by omega
      have hobject := readValue_object (style.isGap_before (level + 1))
        (readMember_field name hvalue hlength (endsNumber_fieldsText style level fields rest))
        (readMembers_fieldsText hmore (by omega) rest)
      rwa [Fields.ofEntries_of_nodup hnodup] at hobject

theorem parse_text (style : Style) {value : Json} (h : Readable maxDepth value) :
    parse (String.ofList (style.text 0 value)) = .ok value := by
  have hread := readsBack style h 0 (2 * (style.text 0 value).length) []
    endsNumber_nil (by omega)
  rw [List.append_nil] at hread
  rw [parse, readText, String.toList_ofList, hread]
  rfl

end Style

theorem parse_compact {value : Json} (h : Readable maxDepth value) :
    parse value.compact = .ok value := by
  rw [compact, ← Style.dense_text 0 value]
  exact Style.parse_text .dense h

theorem parse_pretty {value : Json} (h : Readable maxDepth value) :
    parse value.pretty = .ok value := by
  rw [pretty, ← Style.indented_text 0 value]
  exact Style.parse_text .indented h

end FlowDocs.Json
