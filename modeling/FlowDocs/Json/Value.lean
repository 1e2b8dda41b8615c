/-
  FlowDocs/Json/Value.lean
  ========================
  **JSON values with ordered objects.**

  Documents, templates, step outputs and settings are all `Json`.  An object is
  the list of its fields in order, so writing a value reproduces the order it was
  read in.  `Json.same` is the equality of the expression language below the top
  level: it ignores the order of fields and tells an integer from a double.
-/
import FlowDocs.Json.Fields
import FlowDocs.Json.Number

namespace FlowDocs

inductive Json where
  | null
  | bool (value : Bool)
  | num (value : Number)
  | str (text : String)
  | arr (items : List Json)
  | obj (fields : List (String × Json))
deriving Repr

namespace Json

abbrev Object := Fields Json

instance : Inhabited Json := ⟨.null⟩

def int (n : Int) : Json := .num (.integer n)

/-! ### Deciding equality -/

mutual

/-- Values are equal when they are built alike, order of fields included. -/
def decEq : (a b : Json) → Decidable (a = b)
  | .null, .null => isTrue rfl
  | .bool a, .bool b => decidable_of_iff (a = b) (by simp)
  | .num a, .num b => decidable_of_iff (a = b) (by simp)
  | .str a, .str b => decidable_of_iff (a = b) (by simp)
  | .arr a, .arr b => @decidable_of_iff _ (a = b) (by simp) (decEqItems a b)
  | .obj a, .obj b => @decidable_of_iff _ (a = b) (by simp) (decEqFields a b)
  | .null, .bool _ | .null, .num _ | .null, .str _ | .null, .arr _ | .null, .obj _
  | .bool _, .null | .bool _, .num _ | .bool _, .str _ | .bool _, .arr _ | .bool _, .obj _
  | .num _, .null | .num _, .bool _ | .num _, .str _ | .num _, .arr _ | .num _, .obj _
  | .str _, .null | .str _, .bool _ | .str _, .num _ | .str _, .arr _ | .str _, .obj _
  | .arr _, .null | .arr _, .bool _ | .arr _, .num _ | .arr _, .str _ | .arr _, .obj _
  | .obj _, .null | .obj _, .bool _ | .obj _, .num _ | .obj _, .str _ | .obj _, .arr _ =>
    isFalse (by simp)

def decEqItems : (a b : List Json) → Decidable (a = b)
  | [], [] => isTrue rfl
  | [], _ :: _ => isFalse (by simp)
  | _ :: _, [] => isFalse (by simp)
  | x :: xs, y :: ys =>
    @decidable_of_iff _ (x = y ∧ xs = ys) (by simp)
      (@instDecidableAnd _ _ (decEq x y) (decEqItems xs ys))

def decEqFields : (a b : List (String × Json)) → Decidable (a = b)
  | [], [] => isTrue rfl
  | [], _ :: _ => isFalse (by simp)
  | _ :: _, [] => isFalse (by simp)
  | (n, v) :: rest, (m, w) :: rest' =>
    @decidable_of_iff _ (n = m ∧ v = w ∧ rest = rest') (by simp [and_assoc])
      (@instDecidableAnd _ _ _ (@instDecidableAnd _ _ (decEq v w) (decEqFields rest rest')))

end

instance : DecidableEq Json := decEq

/-! ### Looking inside -/

def field? (value : Json) (name : String) : Option Json :=
  match value with
  | .obj fields => Fields.get? fields name
  | _ => none

def text? : Json → Option String
  | .str text => some text
  | _ => none

def bool? : Json → Option Bool
  | .bool value => some value
  | _ => none

def items? : Json → Option (List Json)
  | .arr items => some items
  | _ => none

def fields? : Json → Option Object
  | .obj fields => some fields
  | _ => none

/-! ### Equality of the expression language -/

mutual

/-- Equal apart from the order of fields; an integer never equals a double. -/
def same : Json → Json → Bool
  | .null, .null => true
  | .bool a, .bool b => a == b
  | .num a, .num b => a.same b
  | .str a, .str b => a == b
  | .arr a, .arr b => sameItems a b
  | .obj a, .obj b => a.length == b.length && sameFields a b
  | _, _ => false

def sameItems : List Json → List Json → Bool
  | [], [] => true
  | x :: xs, y :: ys => same x y && sameItems xs ys
  | _, _ => false

/-- Every field has a partner of the same name in the other object. -/
def sameFields : List (String × Json) → Object → Bool
  | [], _ => true
  | (name, value) :: rest, other =>
    (match Fields.get? other name with
      | some partner => same value partner
      | none => false) && sameFields rest other

end

end Json
end FlowDocs
