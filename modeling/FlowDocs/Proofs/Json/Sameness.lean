/-
  FlowDocs/Proofs/Json/Sameness.lean
  ==================================
  **Sameness of values is reflexive and symmetric.**

  `Json.same` compares objects field by field from one side: every field has a partner in the
  other object, and the objects have equally many fields.  It is symmetric all the same, because
  names that are distinct on both sides and equally many are the same names (`names_subset`).
  It is reflexive because no field hides another one of its name, and no number differs from
  itself.
-/
import FlowDocs.Proofs.Json.Entries
import FlowDocs.Proofs.Json.Induction
import FlowDocs.Proofs.Numeric.Order

namespace FlowDocs

theorem Number.same_self {n : Number} (h : n.isFinite = true) : n.same n = true := by
  have hnumber := Numeric.isNaN_toFloat h
  cases n with
  | integer n => exact beq_self_eq_true n
  | double x => exact (Numeric.beq_iff_place hnumber hnumber).mpr rfl

theorem Number.same_symm {a b : Number} (ha : a.isFinite = true) (hb : b.isFinite = true)
    (h : a.same b = true) : b.same a = true := by
  have hx := Numeric.isNaN_toFloat ha
  have hy := Numeric.isNaN_toFloat hb
  cases a with
  | integer a =>
    cases b with
    | integer b => exact beq_iff_eq.mpr (beq_iff_eq.mp h).symm
    | double y => cases h
  | double x =>
    cases b with
    | integer b => cases h
    | double y =>
      exact (Numeric.beq_iff_place hy hx).mpr ((Numeric.beq_iff_place hx hy).mp h).symm

namespace Json

/-- What holds of every value a document or a literal gives: no object in it repeats a name,
    and its numbers are finite. -/
structure Regular (value : Json) : Prop where
  distinct : value.Distinct
  finite : value.Finite

instance (value : Json) : Decidable value.Regular :=
  decidable_of_iff (value.Distinct ∧ value.Finite)
    ⟨fun h => ⟨h.1, h.2⟩, fun h => ⟨h.distinct, h.finite⟩⟩

theorem regular_arr {items : List Json} : (arr items).Regular ↔ ∀ item ∈ items, item.Regular := by
  constructor
  · rintro ⟨hdistinct, hfinite⟩ item hmem
    exact ⟨distinct_arr.mp hdistinct item hmem, finite_arr.mp hfinite item hmem⟩
  · intro h
    exact ⟨distinct_arr.mpr fun item hmem => (h item hmem).distinct,
      finite_arr.mpr fun item hmem => (h item hmem).finite⟩

theorem regular_obj {fields : Object} :
    (obj fields).Regular ↔
      (Fields.names fields).Nodup ∧ ∀ field ∈ fields, field.2.Regular := by
  constructor
  · rintro ⟨hdistinct, hfinite⟩
    rw [distinct_obj] at hdistinct
    exact ⟨hdistinct.1, fun field hmem =>
      ⟨hdistinct.2 field hmem, finite_obj.mp hfinite field hmem⟩⟩
  · rintro ⟨hnodup, h⟩
    exact ⟨distinct_obj.mpr ⟨hnodup, fun field hmem => (h field hmem).distinct⟩,
      finite_obj.mpr fun field hmem => (h field hmem).finite⟩

/-! ### Items and fields -/

theorem sameItems_self {items : List Json} (h : ∀ item ∈ items, same item item = true) :
    sameItems items items = true := by
  induction items with
  | nil => rfl
  | cons item rest ih =>
    obtain ⟨hitem, hrest⟩ := List.forall_mem_cons.mp h
    rw [sameItems, hitem, ih hrest, Bool.and_self]

theorem sameItems_symm {xs ys : List Json}
    (h : ∀ x ∈ xs, ∀ y ∈ ys, same x y = true → same y x = true)
    (hsame : sameItems xs ys = true) : sameItems ys xs = true := by
  induction xs generalizing ys with
  | nil =>
    cases ys with
    | nil => rfl
    | cons y ys => cases hsame
  | cons x xs ih =>
    cases ys with
    | nil => cases hsame
    | cons y ys =>
      rw [sameItems, Bool.and_eq_true] at hsame ⊢
      have hrest := ih fun x' hx' y' hy' =>
        h x' (List.mem_cons_of_mem x hx') y' (List.mem_cons_of_mem y hy')
      exact ⟨h x List.mem_cons_self y List.mem_cons_self hsame.1, hrest hsame.2⟩

/-- Every field has a partner of its name. -/
theorem sameFields_iff {fields other : Object} :
    sameFields fields other = true ↔
      ∀ field ∈ fields, ∃ partner, Fields.get? other field.1 = some partner ∧
        same field.2 partner = true := by
  induction fields with
  | nil => exact ⟨fun _ => List.forall_mem_nil _, fun _ => rfl⟩
  | cons field rest ih =>
    obtain ⟨name, value⟩ := field
    rw [sameFields, Bool.and_eq_true, ih, List.forall_mem_cons]
    cases Fields.get? other name with
    | none => simp
    | some partner => simp

theorem sameFields_self {fields : Object} (hnodup : (Fields.names fields).Nodup)
    (h : ∀ field ∈ fields, same field.2 field.2 = true) : sameFields fields fields = true := by
  rw [sameFields_iff]
  intro field hmem
  exact ⟨field.2, (Fields.get?_eq_some_iff hnodup).mpr hmem, h field hmem⟩

/-- Equally many distinct names, all of them in the other object, are the other's names. -/
theorem names_subset {fields other : Object} (hnodup : (Fields.names fields).Nodup)
    (hlength : fields.length = other.length)
    (hsubset : Fields.names fields ⊆ Fields.names other) :
    Fields.names other ⊆ Fields.names fields := by
  have hle : (Fields.names other).length ≤ (Fields.names fields).length := by
    rw [Fields.names, Fields.names, List.length_map, List.length_map, hlength]
  exact ((hnodup.subperm hsubset).perm_of_length_le hle).symm.subset

theorem sameFields_symm {fields other : Object} (hnodup : (Fields.names fields).Nodup)
    (hnodup' : (Fields.names other).Nodup) (hlength : fields.length = other.length)
    (h : ∀ field ∈ fields, ∀ partner ∈ other,
      same field.2 partner.2 = true → same partner.2 field.2 = true)
    (hsame : sameFields fields other = true) : sameFields other fields = true := by
  rw [sameFields_iff] at hsame ⊢
  have hsubset : Fields.names fields ⊆ Fields.names other := by
    intro name hname
    obtain ⟨field, hfield, rfl⟩ := List.mem_map.mp hname
    obtain ⟨partner, hpartner, -⟩ := hsame field hfield
    exact List.mem_map.mpr ⟨(field.1, partner), Fields.mem_of_get? hpartner, rfl⟩
  intro partner hpartner
  have hname := names_subset hnodup hlength hsubset (List.mem_map_of_mem hpartner)
  obtain ⟨field, hfield, heq⟩ := List.mem_map.mp hname
  obtain ⟨value, hvalue, hsame⟩ := hsame field hfield
  -- the partner of the field is the one we started from
  rw [heq, (Fields.get?_eq_some_iff hnodup').mpr hpartner] at hvalue
  obtain rfl := Option.some.inj hvalue
  refine ⟨field.2, ?_, h field hfield partner hpartner hsame⟩
  rw [← heq]
  exact (Fields.get?_eq_some_iff hnodup).mpr hfield

/-! ### Values -/

theorem same_self {value : Json} (h : value.Regular) : same value value = true := by
  induction value using Json.induction with
  | null => rfl
  | bool b => exact beq_self_eq_true b
  | num n => exact Number.same_self (finite_num.mp h.finite)
  | str text => exact beq_self_eq_true text
  | arr items ih =>
    rw [regular_arr] at h
    exact sameItems_self fun item hmem => ih item hmem (h item hmem)
  | obj fields ih =>
    obtain ⟨hnodup, h⟩ := regular_obj.mp h
    rw [same, beq_self_eq_true, Bool.true_and]
    exact sameFields_self hnodup fun field hmem => ih field hmem (h field hmem)

theorem same_symm {a b : Json} (ha : a.Regular) (hb : b.Regular) (h : same a b = true) :
    same b a = true := by
  induction a using Json.induction generalizing b with
  | null =>
    cases b with
    | null => rfl
    | _ => cases h
  | bool x =>
    cases b with
    | bool y => exact beq_iff_eq.mpr (beq_iff_eq.mp h).symm
    | _ => cases h
  | num m =>
    cases b with
    | num n => exact Number.same_symm (finite_num.mp ha.finite) (finite_num.mp hb.finite) h
    | _ => cases h
  | str x =>
    cases b with
    | str y => exact beq_iff_eq.mpr (beq_iff_eq.mp h).symm
    | _ => cases h
  | arr xs ih =>
    cases b with
    | arr ys =>
      rw [regular_arr] at ha hb
      rw [same] at h ⊢
      exact sameItems_symm (fun x hx y hy => ih x hx (ha x hx) (hb y hy)) h
    | _ => cases h
  | obj fields ih =>
    cases b with
    | obj other =>
      obtain ⟨hnodup, ha⟩ := regular_obj.mp ha
      obtain ⟨hnodup', hb⟩ := regular_obj.mp hb
      rw [same, Bool.and_eq_true, beq_iff_eq] at h ⊢
      exact ⟨h.1.symm, sameFields_symm hnodup hnodup' h.1
        (fun field hfield partner hpartner =>
          ih field hfield (ha field hfield) (hb partner hpartner)) h.2⟩
    | _ => cases h

end Json
end FlowDocs
