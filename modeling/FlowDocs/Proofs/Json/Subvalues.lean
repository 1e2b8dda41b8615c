/-
  FlowDocs/Proofs/Json/Subvalues.lean
  ===================================
  **What stands inside a value.**

  `subvalues` lists a value together with everything inside it.  The numbers and the
  objects in it are what the invariants of values speak about: that its numbers are finite
  (`Finite`), and that no object in it repeats a name (`Distinct`).  Its texts are what a
  template is read from: its strings and the names of its fields.
-/
import FlowDocs.Json.Value
import FlowDocs.Proofs.Json.Entries

namespace FlowDocs

/-- Integers are finite, and doubles as far as they are. -/
def Number.isFinite : Number → Bool
  | .integer _ => true
  | .double x => x.isFinite

namespace Json

mutual

/-- The value and everything inside it. -/
def subvalues : Json → List Json
  | .arr items => .arr items :: itemSubvalues items
  | .obj fields => .obj fields :: fieldSubvalues fields
  | .null => [.null]
  | .bool b => [.bool b]
  | .num n => [.num n]
  | .str text => [.str text]

def itemSubvalues : List Json → List Json
  | [] => []
  | item :: rest => item.subvalues ++ itemSubvalues rest

def fieldSubvalues : List (String × Json) → List Json
  | [] => []
  | (_, value) :: rest => value.subvalues ++ fieldSubvalues rest

end

def number? : Json → Option Number
  | .num n => some n
  | _ => none

/-- The numbers in a value. -/
def numbers (value : Json) : List Number := value.subvalues.filterMap number?

/-- The objects in a value, each as its fields. -/
def objects (value : Json) : List Object := value.subvalues.filterMap fields?

/-- The strings in a value. -/
def strings (value : Json) : List String := value.subvalues.filterMap text?

/-- The strings in a value and the names of the fields in it. -/
def texts (value : Json) : List String := value.strings ++ value.objects.flatMap Fields.names

/-- Every number in the value is finite. -/
def Finite (value : Json) : Prop := ∀ n ∈ value.numbers, n.isFinite = true

/-- No object in the value repeats a name. -/
def Distinct (value : Json) : Prop := ∀ fields ∈ value.objects, (Fields.names fields).Nodup

instance (value : Json) : Decidable value.Finite :=
  inferInstanceAs (Decidable (∀ n ∈ value.numbers, n.isFinite = true))

instance (value : Json) : Decidable value.Distinct :=
  inferInstanceAs (Decidable (∀ fields ∈ value.objects, (Fields.names fields).Nodup))

theorem itemSubvalues_eq_flatMap (items : List Json) :
    itemSubvalues items = items.flatMap subvalues := by
  induction items with
  | nil => rfl
  | cons item rest ih => rw [itemSubvalues, ih, List.flatMap_cons]

theorem fieldSubvalues_eq_flatMap (fields : Object) :
    fieldSubvalues fields = fields.flatMap fun field => field.2.subvalues := by
  induction fields with
  | nil => rfl
  | cons field rest ih =>
    obtain ⟨name, value⟩ := field
    rw [fieldSubvalues, ih, List.flatMap_cons]

theorem numbers_arr (items : List Json) : (arr items).numbers = items.flatMap numbers := by
  rw [numbers, subvalues, itemSubvalues_eq_flatMap, List.filterMap_cons_none rfl,
    List.filterMap_flatMap]
  rfl

theorem numbers_obj (fields : Object) :
    (obj fields).numbers = fields.flatMap fun field => field.2.numbers := by
  rw [numbers, subvalues, fieldSubvalues_eq_flatMap, List.filterMap_cons_none rfl,
    List.filterMap_flatMap]
  rfl

theorem objects_arr (items : List Json) : (arr items).objects = items.flatMap objects := by
  rw [objects, subvalues, itemSubvalues_eq_flatMap, List.filterMap_cons_none rfl,
    List.filterMap_flatMap]
  rfl

theorem objects_obj (fields : Object) :
    (obj fields).objects = fields :: fields.flatMap fun field => field.2.objects := by
  have hself : fields? (obj fields) = some fields := rfl
  rw [objects, subvalues, fieldSubvalues_eq_flatMap, List.filterMap_cons_some hself,
    List.filterMap_flatMap]
  rfl

theorem strings_arr (items : List Json) : (arr items).strings = items.flatMap strings := by
  rw [strings, subvalues, itemSubvalues_eq_flatMap, List.filterMap_cons_none rfl,
    List.filterMap_flatMap]
  rfl

theorem strings_obj (fields : Object) :
    (obj fields).strings = fields.flatMap fun field => field.2.strings := by
  rw [strings, subvalues, fieldSubvalues_eq_flatMap, List.filterMap_cons_none rfl,
    List.filterMap_flatMap]
  rfl

/-! ### The texts, level by level -/

section
variable {p : String → Prop}

theorem forall_texts_str {text : String} : (∀ t ∈ (str text).texts, p t) ↔ p text :=
  List.forall_mem_singleton

theorem forall_texts_arr {items : List Json} :
    (∀ t ∈ (arr items).texts, p t) ↔ ∀ item ∈ items, ∀ t ∈ item.texts, p t := by
  simp only [texts, strings_arr, objects_arr, List.forall_mem_append, List.forall_mem_flatMap,
    forall₂_and]

theorem forall_texts_obj {fields : Object} :
    (∀ t ∈ (obj fields).texts, p t) ↔
      (∀ name ∈ Fields.names fields, p name) ∧
        ∀ field ∈ fields, ∀ t ∈ field.2.texts, p t := by
  simp only [texts, strings_obj, objects_obj, List.flatMap_cons, List.forall_mem_append,
    List.forall_mem_flatMap, forall₂_and]
  rw [and_left_comm]

end

/-! ### The invariants, level by level -/

theorem finite_num {n : Number} : (num n).Finite ↔ n.isFinite = true :=
  List.forall_mem_singleton

theorem finite_arr {items : List Json} : (arr items).Finite ↔ ∀ item ∈ items, item.Finite := by
  simp only [Finite, numbers_arr, List.forall_mem_flatMap]

theorem finite_obj {fields : Object} : (obj fields).Finite ↔ ∀ field ∈ fields, field.2.Finite := by
  simp only [Finite, numbers_obj, List.forall_mem_flatMap]

theorem distinct_arr {items : List Json} :
    (arr items).Distinct ↔ ∀ item ∈ items, item.Distinct := by
  simp only [Distinct, objects_arr, List.forall_mem_flatMap]

theorem distinct_obj {fields : Object} :
    (obj fields).Distinct
      ↔ (Fields.names fields).Nodup ∧ ∀ field ∈ fields, field.2.Distinct := by
  simp only [Distinct, objects_obj, List.forall_mem_cons, List.forall_mem_flatMap]

theorem distinct_of_field? {value inner : Json} {name : String} (h : value.Distinct)
    (hfield : value.field? name = some inner) : inner.Distinct := by
  cases value with
  | obj fields => exact (distinct_obj.mp h).2 _ (Fields.mem_of_get? hfield)
  | _ => cases hfield

end Json
end FlowDocs
