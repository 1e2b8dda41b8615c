/-
  FlowDocs/Proofs/Template/Structure.lean
  =======================================
  **Resolution keeps the structure of a template.**

  A scalar that is no string stays as it is, and an array keeps its length and its
  order.  The names of an object are resolved as well, so two of them can become one:
  then the name keeps the first place and takes the last value.  Where that happens
  nowhere, every part of the template is found resolved at its own place in the result,
  however deep it stands.

  The answers of the world are handed out by place.  `Supply.nth` names those of the
  items of an array and of the fields of an object, and `PartAt` carries them along on
  the way down to a part.
-/
import FlowDocs.Proofs.Json.Entries
import FlowDocs.Template.Resolution

namespace FlowDocs

/-- The answers for one of several parts, counted from 0. -/
def Supply.nth (supply : Supply) : Nat → Supply
  | 0 => supply.left
  | i + 1 => supply.right.nth i

namespace Json

def IsScalar : Json → Prop
  | .null | .bool _ | .num _ => True
  | .str _ | .arr _ | .obj _ => False

/-- The item of an array, or the value of the field of an object, by its number. -/
def nth? : Json → Nat → Option Json
  | .arr items, i => items[i]?
  | .obj fields, i => fields[i]?.map Prod.snd
  | _, _ => none

/-- What stands at a place: the numbers that lead to it from the whole value. -/
def at? (value : Json) : List Nat → Option Json
  | [] => some value
  | i :: place => (value.nth? i).bind fun part => part.at? place

end Json

namespace Template

/-- The template has the part at the place, and the second supply is what it is
    resolved with when the first is given to the whole. -/
inductive PartAt : Supply → Json → List Nat → Supply → Json → Prop where
  | whole (supply : Supply) (template : Json) : PartAt supply template [] supply template
  | item {supply supply' : Supply} {items : List Json} {i : Nat} {item part : Json}
      {place : List Nat} :
      items[i]? = some item → PartAt (supply.nth i) item place supply' part →
      PartAt supply (.arr items) (i :: place) supply' part
  | field {supply supply' : Supply} {fields : Json.Object} {i : Nat} {name : String}
      {value part : Json} {place : List Nat} :
      fields[i]? = some (name, value) → PartAt (supply.nth i).right value place supply' part →
      PartAt supply (.obj fields) (i :: place) supply' part

variable (supply : Supply) (context : Context)

/-- The resolved names of the fields of an object, repeated names included. -/
def resolvedNames (fields : Json.Object) : List String :=
  fields.mapIdx fun i field => resolveName (supply.nth i).left context field.1

/-! ### Items and entries -/

theorem getElem?_resolveItems (items : List Json) (i : Nat) :
    (resolveItems supply context items)[i]?
      = items[i]?.map fun item => resolve (supply.nth i) context item := by
  induction items generalizing supply i with
  | nil => rfl
  | cons item rest ih =>
    cases i with
    | zero => rfl
    | succ i => exact ih supply.right i

theorem length_resolveItems (items : List Json) :
    (resolveItems supply context items).length = items.length := by
  induction items generalizing supply with
  | nil => rfl
  | cons item rest ih => exact congrArg Nat.succ (ih supply.right)

theorem getElem?_resolveEntries (fields : Json.Object) (i : Nat) :
    (resolveEntries supply context fields)[i]?
      = fields[i]?.map fun field =>
          (resolveName (supply.nth i).left context field.1,
            resolve (supply.nth i).right context field.2) := by
  induction fields generalizing supply i with
  | nil => rfl
  | cons field rest ih =>
    cases i with
    | zero => rfl
    | succ i => exact ih supply.right i

theorem names_resolveEntries (fields : Json.Object) :
    Fields.names (resolveEntries supply context fields) = resolvedNames supply context fields := by
  apply List.ext_getElem?
  intro i
  rw [Fields.names, List.getElem?_map, getElem?_resolveEntries, resolvedNames,
    List.getElem?_mapIdx, Option.map_map]
  rfl

/-! ### Objects -/

variable {supply context}

/-- With distinct resolved names an object keeps every field where it is. -/
theorem resolve_obj_of_nodup {fields : Json.Object}
    (h : (resolvedNames supply context fields).Nodup) :
    resolve supply context (.obj fields) = .obj (resolveEntries supply context fields) := by
  rw [← names_resolveEntries] at h
  rw [resolve, Fields.ofEntries_of_nodup h]

/-- The last of the fields that come to have a name decides its value. -/
theorem get?_resolved_of_last {fields : Json.Object} {i : Nat} {name : String} {value : Json}
    (hfield : fields[i]? = some (name, value))
    (hlast : ∀ j, i < j → (resolvedNames supply context fields)[j]?
      ≠ some (resolveName (supply.nth i).left context name)) :
    Fields.get? (Fields.ofEntries (resolveEntries supply context fields))
        (resolveName (supply.nth i).left context name)
      = some (resolve (supply.nth i).right context value) := by
  rw [← names_resolveEntries] at hlast
  rw [Fields.get?_ofEntries]
  refine Fields.get?_reverse_of_last (i := i) ?_ hlast
  rw [getElem?_resolveEntries, hfield, Option.map_some]

/-! ### Parts at any depth -/

/-- The fields of every object in the template come to have distinct names. -/
def NamesStayApart (supply : Supply) (context : Context) (template : Json) : Prop :=
  ∀ place supply' fields, PartAt supply template place supply' (.obj fields) →
    (resolvedNames supply' context fields).Nodup

/-- Each part is resolved where it stands. -/
theorem at?_resolve {template part : Json} {place : List Nat} {supply' : Supply}
    (hpart : PartAt supply template place supply' part)
    (hnames : NamesStayApart supply context template) :
    (resolve supply context template).at? place = some (resolve supply' context part) := by
  induction hpart with
  | whole supply template => rfl
  | @item supply supply' items i item part place hitem hpart ih =>
    have hbelow : NamesStayApart (supply.nth i) context item :=
      fun place' supply'' fields h => hnames (i :: place') supply'' fields (.item hitem h)
    rw [resolve, Json.at?, Json.nth?, getElem?_resolveItems, hitem, Option.map_some,
      Option.bind_some, ih hbelow]
  | @field supply supply' fields i name value part place hfield hpart ih =>
    have hbelow : NamesStayApart (supply.nth i).right context value :=
      fun place' supply'' fields' h => hnames (i :: place') supply'' fields' (.field hfield h)
    rw [resolve_obj_of_nodup (hnames [] supply fields (.whole _ _)), Json.at?, Json.nth?,
      getElem?_resolveEntries, hfield, Option.map_some, Option.map_some, Option.bind_some,
      ih hbelow]

/-- The name of a field is the text of its value: nothing for undefined and `null`. -/
theorem resolveName_eq (supply : Supply) (context : Context) (name : String) :
    resolveName supply context name
      = match resolveText supply context name with
        | none => ""
        | some .null => ""
        | some (.str text) => text
        | some value => value.compact := by
  rw [resolveName, display]
  cases resolveText supply context name with
  | none => rfl
  | some value =>
    cases value with
    | str text => exact String.ofList_toList
    | _ => rfl

/-- **Resolution keeps structure.**  Scalars stay as they are; an array is resolved item by
    item; an object gets its resolved names, each at its first place and with the value of
    the last field that comes to have it.  So if the names of every object stay apart, each
    part of the template is resolved at its own place, at any depth, and every object has
    exactly the resolved names of its fields, in their order. -/
theorem resolve_keeps_structure (supply : Supply) (context : Context) :
    (∀ template : Json, template.IsScalar → resolve supply context template = template) ∧
    (∀ items, ∃ results, resolve supply context (.arr items) = .arr results ∧
      results.length = items.length ∧
      ∀ i item, items[i]? = some item →
        results[i]? = some (resolve (supply.nth i) context item)) ∧
    (∀ fields, ∃ results, resolve supply context (.obj fields) = .obj results ∧
      Fields.names results = (resolvedNames supply context fields).eraseDups ∧
      ∀ i name value, fields[i]? = some (name, value) →
        (∀ j, i < j → (resolvedNames supply context fields)[j]?
          ≠ some (resolveName (supply.nth i).left context name)) →
        Fields.get? results (resolveName (supply.nth i).left context name)
          = some (resolve (supply.nth i).right context value)) ∧
    (∀ name, resolveName supply context name
      = match resolveText supply context name with
        | none => ""
        | some .null => ""
        | some (.str text) => text
        | some value => value.compact) ∧
    (∀ template, NamesStayApart supply context template →
      ∀ place supply' part, PartAt supply template place supply' part →
        (resolve supply context template).at? place = some (resolve supply' context part) ∧
        ∀ fields, part = .obj fields → ∃ results, resolve supply' context part = .obj results ∧
          Fields.names results = resolvedNames supply' context fields) := by
  refine ⟨?_, ?_, ?_, resolveName_eq supply context, ?_⟩
  · intro template hscalar
    cases template with
    | null => rfl
    | bool b => rfl
    | num n => rfl
    | str text => exact hscalar.elim
    | arr items => exact hscalar.elim
    | obj fields => exact hscalar.elim
  · intro items
    refine ⟨_, rfl, length_resolveItems supply context items, ?_⟩
    intro i item hitem
    rw [getElem?_resolveItems, hitem, Option.map_some]
  · intro fields
    refine ⟨_, rfl, ?_, fun i name value => get?_resolved_of_last⟩
    rw [Fields.names_ofEntries, names_resolveEntries]
  · intro template hnames place supply' part hpart
    refine ⟨at?_resolve hpart hnames, ?_⟩
    rintro fields rfl
    exact ⟨_, resolve_obj_of_nodup (hnames place supply' fields hpart),
      names_resolveEntries supply' context fields⟩

/-- Two names become one, and below an object whose names stay apart a part is found at
    its own place. -/
theorem resolve_keeps_structure_renamed :
    (∃ results,
      resolve (.constant ⟨"noon", "id"⟩) { extra := [("k", .str "b")] }
        (.obj [("\x7b\x7bk\x7d\x7d", .null), ("a", .bool true), ("b", .str "\x7b\x7bk\x7d\x7d!")])
          = .obj results ∧
      Fields.names results = ["b", "a"] ∧ Fields.get? results "b" = some (.str "b!")) ∧
    (resolve (.constant ⟨"noon", "id"⟩) { extra := [("k", .str "b")] }
        (.arr [.obj [("a", .null), ("\x7b\x7bk\x7d\x7d", .str "\x7b\x7bk\x7d\x7d!")]])).at? [0, 1]
      = some (.str "b!") := by
  constructor
  · obtain ⟨results, hresults, hnames, hlast⟩ :=
      (resolve_keeps_structure (.constant ⟨"noon", "id"⟩) { extra := [("k", .str "b")] }).2.2.1
        [("\x7b\x7bk\x7d\x7d", .null), ("a", .bool true), ("b", .str "\x7b\x7bk\x7d\x7d!")]
    have hresolved : resolvedNames (.constant ⟨"noon", "id"⟩) { extra := [("k", .str "b")] }
        [("\x7b\x7bk\x7d\x7d", .null), ("a", .bool true), ("b", .str "\x7b\x7bk\x7d\x7d!")]
          = ["b", "a", "b"] := by
      cbv
    have hb : resolveName (.constant ⟨"noon", "id"⟩) { extra := [("k", .str "b")] } "b" = "b" := by
      cbv
    have hvalue := hlast 2 "b" (.str "\x7b\x7bk\x7d\x7d!") rfl (by
      intro j hj
      rw [hresolved, List.getElem?_eq_none hj]
      exact (Option.some_ne_none _).symm)
    rw [hresolved] at hnames
    refine ⟨results, hresults, hnames.trans (by decide), ?_⟩
    refine (congrArg (Fields.get? results) hb.symm).trans (hvalue.trans ?_)
    cbv
  · have hapart : NamesStayApart (.constant ⟨"noon", "id"⟩) { extra := [("k", .str "b")] }
        (.arr [.obj [("a", .null), ("\x7b\x7bk\x7d\x7d", .str "\x7b\x7bk\x7d\x7d!")]]) := by
      intro place supply' fields hpart
      cases hpart with
      | @item _ _ _ i _ _ _ hitem hpart =>
        obtain rfl : i = 0 := by
          have hlt := (List.getElem?_eq_some_iff.mp hitem).1
          simpa using hlt
        cases hitem
        cases hpart with
        | whole => cbv; decide
        | @field _ _ _ i _ _ _ _ hfield hpart =>
          -- neither `null` nor a string has an object inside
          rcases i with _ | _ | i
          · cases hfield; cases hpart
          · cases hfield; cases hpart
          · cases hfield
    refine ((resolve_keeps_structure _ _).2.2.2.2 _ hapart [0, 1] _ _
      (.item rfl (.field rfl (.whole _ _)))).1.trans ?_
    cbv

end Template
end FlowDocs
