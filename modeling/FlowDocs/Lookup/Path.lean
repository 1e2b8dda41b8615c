/-
  FlowDocs/Lookup/Path.lean
  =========================
  **Paths into a value.**

  A path is written with points and bracketed indices: `a.b[0].c`.  An index in
  brackets means the same as one after a point, so a path is first brought into
  the form with points only and then cut at them.  Walking a segment down indexes
  an object by name and an array by position; nothing else has anything inside.
-/
import FlowDocs.Json.Value
import FlowDocs.Text.Cut
import FlowDocs.Text.DecimalDigit

namespace FlowDocs.Lookup

/-! ### The text of a path -/

/-- The digits of an index whose opening bracket has been read, and the text after
    its closing bracket. -/
def bracketed? (cs : List Char) : Option (List Char × List Char) :=
  match cs.takeWhile Text.isDecimalDigit, cs.dropWhile Text.isDecimalDigit with
  | d :: digits, ']' :: rest => some (d :: digits, rest)
  | _, _ => none

theorem length_bracketed? {cs digits rest : List Char} (h : bracketed? cs = some (digits, rest)) :
    rest.length < cs.length := by
  unfold bracketed? at h
  split at h
  · rename_i heq
    simp only [Option.some.injEq, Prod.mk.injEq] at h
    have hl := (List.dropWhile_sublist Text.isDecimalDigit (l := cs)).length_le
    rw [heq] at hl
    rw [← h.2]
    simp only [List.length_cons] at hl
    omega
  · simp at h

/-- Write every index in brackets as a segment after a point. -/
def dotted (cs : List Char) : List Char :=
  match cs with
  | [] => []
  | c :: rest =>
    if c = '[' then
      match _found : bracketed? rest with
      | some (digits, after) => '.' :: digits ++ dotted after
      | none => c :: dotted rest
    else c :: dotted rest
termination_by cs.length
decreasing_by
  · have := length_bracketed? _found
    simp only [List.length_cons]; omega
  all_goals simp

/-- The segments of a path.  Empty segments are kept. -/
def segments (path : String) : List String :=
  (Text.cutAt '.' (dotted path.toList)).map String.ofList

/-! ### Walking down -/

/-- The position a segment names: decimal digits, with an optional `+` in front. -/
def position? (segment : String) : Option Nat :=
  let digits := match segment.toList with
    | '+' :: rest => rest
    | cs => cs
  if digits ≠ [] ∧ digits.all Char.isDigit then
    some (digits.foldl (fun n c => n * 10 + (c.toNat - 48)) 0)
  else none

def child (value : Json) (segment : String) : Option Json :=
  match value with
  | .obj fields => Fields.get? fields segment
  | .arr items => (position? segment).bind fun i => items[i]?
  | _ => none

/-- Walk the segments down from a value. -/
def descend (value : Json) : List String → Option Json
  | [] => some value
  | segment :: rest =>
    match child value segment with
    | some inner => descend inner rest
    | none => none

/-- What a path names inside a value.  The empty path names nothing, and nothing is
    named inside `null`. -/
def inValue (root : Json) (path : String) : Option Json :=
  if root = .null ∨ path = "" then none else descend root (segments path)

/-- What the first segment names among fields, and the others inside it. -/
def descendFields (fields : Json.Object) : List String → Option Json
  | [] => none
  | first :: rest => (Fields.get? fields first).bind fun value => descend value rest

def inFields (fields : Json.Object) (path : String) : Option Json :=
  if path = "" then none else descendFields fields (segments path)

end FlowDocs.Lookup
