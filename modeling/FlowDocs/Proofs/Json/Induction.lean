/-
  FlowDocs/Proofs/Json/Induction.lean
  ===================================
  **Induction over values.**

  A value is built through lists of items and lists of fields, and the recursor that
  comes with it speaks about those lists as well.  What a proof about values wants to
  know of an array or an object is that the property holds of every part.
-/
import FlowDocs.Json.Value
import Mathlib

namespace FlowDocs

theorem Json.sizeOf_lt_of_mem_items {item : Json} {items : List Json} (h : item ∈ items) :
    sizeOf item < sizeOf (Json.arr items) := by
  have := List.sizeOf_lt_of_mem h
  simp only [Json.arr.sizeOf_spec]
  omega

theorem Json.sizeOf_lt_of_mem_fields {entry : String × Json} {fields : List (String × Json)}
    (h : entry ∈ fields) : sizeOf entry.2 < sizeOf (Json.obj fields) := by
  have hmem := List.sizeOf_lt_of_mem h
  have hpair : sizeOf entry = 1 + sizeOf entry.1 + sizeOf entry.2 := by
    cases entry; rfl
  simp only [Json.obj.sizeOf_spec]
  omega

/-- A property holds of every value if it holds of the scalars and is passed on from
    the items of an array and from the values of an object's fields. -/
@[elab_as_elim]
theorem Json.induction {motive : Json → Prop} (null : motive .null)
    (bool : ∀ b, motive (.bool b)) (num : ∀ n, motive (.num n)) (str : ∀ text, motive (.str text))
    (arr : ∀ items, (∀ item ∈ items, motive item) → motive (.arr items))
    (obj : ∀ fields, (∀ entry ∈ fields, motive entry.2) → motive (.obj fields)) :
    ∀ value, motive value
  | .null => null
  | .bool b => bool b
  | .num n => num n
  | .str text => str text
  | .arr items => arr items fun item _ => induction null bool num str arr obj item
  | .obj fields => obj fields fun entry _ => induction null bool num str arr obj entry.2
termination_by value => sizeOf value
decreasing_by
  · exact Json.sizeOf_lt_of_mem_items ‹_›
  · exact Json.sizeOf_lt_of_mem_fields ‹_›

end FlowDocs
