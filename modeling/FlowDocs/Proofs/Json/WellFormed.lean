/-
  FlowDocs/Proofs/Json/WellFormed.lean
  ====================================
  **Values as they are kept in memory.**

  An object in memory is a map and an integer has 64 bits, so a value that could exist there
  repeats no name in an object and holds no integer beyond a word: it is `WellFormed`.  A
  value without doubles whose nesting is bounded as well is `Readable`: the reader gives it
  back from its text.
-/
import FlowDocs.Json.Reader
import FlowDocs.Proofs.Json.Entries
import FlowDocs.Proofs.Json.Subvalues

namespace FlowDocs

namespace Number

/-- The integers that 64 bits hold, with a sign or without one. -/
def IsWord : Number → Prop
  | .integer n => -(Json.maxNegated : Int) ≤ n ∧ n ≤ Json.maxWord
  | .double _ => True

def isInteger : Number → Bool
  | .integer _ => true
  | .double _ => false

instance : DecidablePred IsWord
  | .integer n => inferInstanceAs (Decidable (-(Json.maxNegated : Int) ≤ n ∧ n ≤ Json.maxWord))
  | .double _ => .isTrue trivial

end Number

namespace Json

/-- What holds of every value in memory: its objects are maps, its integers are words. -/
structure WellFormed (value : Json) : Prop where
  distinct : value.Distinct
  words : ∀ n ∈ value.numbers, n.IsWord

instance (value : Json) : Decidable value.WellFormed :=
  decidable_of_iff (value.Distinct ∧ ∀ n ∈ value.numbers, n.IsWord)
    ⟨fun h => ⟨h.1, h.2⟩, fun h => ⟨h.distinct, h.words⟩⟩

def FloatFree (value : Json) : Prop := ∀ n ∈ value.numbers, n.isInteger = true

instance (value : Json) : Decidable value.FloatFree :=
  inferInstanceAs (Decidable (∀ n ∈ value.numbers, n.isInteger = true))

mutual

/-- How deep arrays and objects are nested in the value. -/
def depth : Json → Nat
  | .arr items => itemsDepth items + 1
  | .obj fields => fieldsDepth fields + 1
  | .null => 0
  | .bool _ => 0
  | .num _ => 0
  | .str _ => 0

def itemsDepth : List Json → Nat
  | [] => 0
  | item :: rest => max item.depth (itemsDepth rest)

def fieldsDepth : List (String × Json) → Nat
  | [] => 0
  | (_, value) :: rest => max value.depth (fieldsDepth rest)

end

theorem itemsDepth_le_iff {items : List Json} {bound : Nat} :
    itemsDepth items ≤ bound ↔ ∀ item ∈ items, item.depth ≤ bound := by
  induction items with
  | nil => simp [itemsDepth]
  | cons item rest ih => rw [itemsDepth, Nat.max_le, ih, List.forall_mem_cons]

theorem fieldsDepth_le_iff {fields : Object} {bound : Nat} :
    fieldsDepth fields ≤ bound ↔ ∀ field ∈ fields, field.2.depth ≤ bound := by
  induction fields with
  | nil => simp [fieldsDepth]
  | cons field rest ih => rw [fieldsDepth, Nat.max_le, ih, List.forall_mem_cons]

theorem depth_arr_le_iff {items : List Json} {bound : Nat} :
    (arr items).depth ≤ bound + 1 ↔ ∀ item ∈ items, item.depth ≤ bound := by
  rw [depth, Nat.add_le_add_iff_right, itemsDepth_le_iff]

theorem depth_obj_le_iff {fields : Object} {bound : Nat} :
    (obj fields).depth ≤ bound + 1 ↔ ∀ field ∈ fields, field.2.depth ≤ bound := by
  rw [depth, Nat.add_le_add_iff_right, fieldsDepth_le_iff]

theorem forall_numbers_arr {P : Number → Prop} {items : List Json} :
    (∀ n ∈ (arr items).numbers, P n) ↔ ∀ item ∈ items, ∀ n ∈ item.numbers, P n := by
  rw [numbers_arr, List.forall_mem_flatMap]

theorem forall_numbers_obj {P : Number → Prop} {fields : Object} :
    (∀ n ∈ (obj fields).numbers, P n) ↔ ∀ field ∈ fields, ∀ n ∈ field.2.numbers, P n := by
  rw [numbers_obj, List.forall_mem_flatMap]

/-! ### Values of bounded nesting -/

/-- A value in memory that nests no deeper than `bound` levels. -/
structure Within (bound : Nat) (value : Json) : Prop where
  wellFormed : value.WellFormed
  depth : value.depth ≤ bound

/-- What a reader that follows `bound` levels reads back. -/
structure Readable (bound : Nat) (value : Json) : Prop extends Within bound value where
  floatFree : value.FloatFree

variable {bound : Nat} {items : List Json} {fields : Object}

theorem within_num {n : Number} : Within bound (.num n) ↔ n.IsWord := by
  constructor
  · exact fun h => h.wellFormed.words n (List.mem_singleton_self n)
  · exact fun h => ⟨⟨List.forall_mem_nil _, List.forall_mem_singleton.mpr h⟩, Nat.zero_le bound⟩

theorem within_null : Within bound .null :=
  ⟨⟨List.forall_mem_nil _, List.forall_mem_nil _⟩, Nat.zero_le bound⟩

theorem within_bool (b : Bool) : Within bound (.bool b) :=
  ⟨⟨List.forall_mem_nil _, List.forall_mem_nil _⟩, Nat.zero_le bound⟩

theorem within_str (text : String) : Within bound (.str text) :=
  ⟨⟨List.forall_mem_nil _, List.forall_mem_nil _⟩, Nat.zero_le bound⟩

theorem within_arr :
    Within (bound + 1) (.arr items) ↔ ∀ item ∈ items, Within bound item := by
  constructor
  · rintro ⟨⟨hdistinct, hwords⟩, hdepth⟩ item hmem
    exact ⟨⟨distinct_arr.mp hdistinct item hmem, forall_numbers_arr.mp hwords item hmem⟩,
      depth_arr_le_iff.mp hdepth item hmem⟩
  · intro h
    exact ⟨⟨distinct_arr.mpr fun item hmem => (h item hmem).wellFormed.distinct,
        forall_numbers_arr.mpr fun item hmem => (h item hmem).wellFormed.words⟩,
      depth_arr_le_iff.mpr fun item hmem => (h item hmem).depth⟩

theorem within_obj :
    Within (bound + 1) (.obj fields)
      ↔ (Fields.names fields).Nodup ∧ ∀ field ∈ fields, Within bound field.2 := by
  constructor
  · rintro ⟨⟨hdistinct, hwords⟩, hdepth⟩
    rw [distinct_obj] at hdistinct
    refine ⟨hdistinct.1, fun field hmem => ?_⟩
    exact ⟨⟨hdistinct.2 field hmem, forall_numbers_obj.mp hwords field hmem⟩,
      depth_obj_le_iff.mp hdepth field hmem⟩
  · rintro ⟨hnodup, h⟩
    exact ⟨⟨distinct_obj.mpr ⟨hnodup, fun field hmem => (h field hmem).wellFormed.distinct⟩,
        forall_numbers_obj.mpr fun field hmem => (h field hmem).wellFormed.words⟩,
      depth_obj_le_iff.mpr fun field hmem => (h field hmem).depth⟩

theorem Readable.num {n : Number} (h : Readable bound (.num n)) :
    ∃ k : Int, n = .integer k ∧ (Number.integer k).IsWord := by
  have hinteger := h.floatFree n (List.mem_singleton_self n)
  have hword := within_num.mp h.toWithin
  cases n with
  | integer k => exact ⟨k, rfl, hword⟩
  | double x => cases hinteger

theorem readable_str (text : String) : Readable bound (.str text) :=
  ⟨within_str text, List.forall_mem_nil _⟩

theorem readable_arr :
    Readable (bound + 1) (.arr items) ↔ ∀ item ∈ items, Readable bound item := by
  constructor
  · rintro ⟨hwithin, hfree⟩ item hmem
    exact ⟨within_arr.mp hwithin item hmem, forall_numbers_arr.mp hfree item hmem⟩
  · intro h
    exact ⟨within_arr.mpr fun item hmem => (h item hmem).toWithin,
      forall_numbers_arr.mpr fun item hmem => (h item hmem).floatFree⟩

theorem readable_obj :
    Readable (bound + 1) (.obj fields)
      ↔ (Fields.names fields).Nodup ∧ ∀ field ∈ fields, Readable bound field.2 := by
  constructor
  · rintro ⟨hwithin, hfree⟩
    obtain ⟨hnodup, hfields⟩ := within_obj.mp hwithin
    exact ⟨hnodup, fun field hmem =>
      ⟨hfields field hmem, forall_numbers_obj.mp hfree field hmem⟩⟩
  · rintro ⟨hnodup, h⟩
    exact ⟨within_obj.mpr ⟨hnodup, fun field hmem => (h field hmem).toWithin⟩,
      forall_numbers_obj.mpr fun field hmem => (h field hmem).floatFree⟩

theorem Readable.set {value : Json} {name : String}
    (h : Readable (bound + 1) (.obj fields)) (hvalue : Readable bound value) :
    Readable (bound + 1) (.obj (Fields.set fields name value)) := by
  obtain ⟨hnodup, hfields⟩ := readable_obj.mp h
  refine readable_obj.mpr ⟨Fields.nodup_names_set hnodup name value, ?_⟩
  intro field hmem
  rcases Fields.mem_set hmem with rfl | hmem
  · exact hvalue
  · exact hfields field hmem

end Json
end FlowDocs
