/-
  FlowDocs/Proofs/Json/Reading.lean
  =================================
  **The reader, one production at a time.**

  For each production of the grammar: what the reader gives for a text that starts with
  it, from what it gives for the parts.  Layout in front of a part does not count.
-/
import FlowDocs.Proofs.Json.Scalars
import FlowDocs.Proofs.Json.WellFormed

namespace FlowDocs.Json

variable {fuel depth : Nat}

/-- Layout in front of a value is passed over. -/
theorem readValue_gap {gap : List Char} (h : IsGap gap) (cs : List Char) :
    readValue fuel depth (gap ++ cs) = readValue fuel depth cs := by
  cases fuel with
  | zero => rw [readValue, readValue]
  | succ fuel => rw [readValue, readValue, skipLayout_gap h]

/-! ### Scalars -/

theorem readValue_null (rest : List Char) :
    readValue (fuel + 1) depth ('n' :: 'u' :: 'l' :: 'l' :: rest) = .ok (.null, rest) := by
  rw [readValue, skipLayout_cons rfl]
  simp [readWord]

theorem readValue_bool (b : Bool) (rest : List Char) :
    readValue (fuel + 1) depth (boolText b ++ rest) = .ok (.bool b, rest) := by
  cases b
  · change readValue (fuel + 1) depth ('f' :: 'a' :: 'l' :: 's' :: 'e' :: rest) = _
    rw [readValue, skipLayout_cons rfl]
    simp [readWord]
  · change readValue (fuel + 1) depth ('t' :: 'r' :: 'u' :: 'e' :: rest) = _
    rw [readValue, skipLayout_cons rfl]
    simp [readWord]

theorem readValue_negative {cs rest : List Char} {n : Number}
    (hread : readNumber true cs = .ok (n, rest)) :
    readValue (fuel + 1) depth ('-' :: cs) = .ok (.num n, rest) := by
  rw [readValue, skipLayout_cons rfl]
  simp [hread]

theorem readValue_natural {c : Char} (hc : c.isDigit = true) {cs rest : List Char} {n : Number}
    (hread : readNumber false (c :: cs) = .ok (n, rest)) :
    readValue (fuel + 1) depth (c :: cs) = .ok (.num n, rest) := by
  have hother : c ≠ 'n' ∧ c ≠ 't' ∧ c ≠ 'f' ∧ c ≠ '-' := by
    refine ⟨?_, ?_, ?_, ?_⟩ <;> rintro rfl <;> cases hc
  rw [readValue, skipLayout_cons (isLayout_of_isDigit hc)]
  simp [hother, hc, hread]

theorem readValue_integer {n : Int} (hword : (Number.integer n).IsWord) {rest : List Char}
    (hend : EndsNumber rest) :
    readValue (fuel + 1) depth (integerText n ++ rest) = .ok (.num (.integer n), rest) := by
  obtain ⟨hleast, hlargest⟩ := hword
  have hbound : maxNegated ≤ maxWord := by decide
  have hread (negative : Bool) :=
    readNumber_toDigits negative (show n.natAbs ≤ maxWord by omega) hend
  by_cases hneg : n < 0
  · have hnumber : wholeNumber true n.natAbs = .integer n := by
      rw [wholeNumber, if_pos rfl, if_neg (by omega)]
      congr
      omega
    rw [integerText, if_pos hneg, List.cons_append, ← hnumber]
    exact readValue_negative (hread true)
  · have hnumber : wholeNumber false n.natAbs = .integer n := by
      rw [wholeNumber, if_neg Bool.false_ne_true]
      congr
      omega
    obtain ⟨c, cs, hdigits⟩ := List.exists_cons_of_ne_nil
      (Nat.toDigits_ne_nil : Nat.toDigits 10 n.natAbs ≠ [])
    have hc : c.isDigit = true :=
      Nat.isDigit_of_mem_toDigits (by decide) (by decide) (hdigits ▸ List.mem_cons_self)
    have hread := hread false
    rw [hdigits, List.cons_append, hnumber] at hread
    rw [integerText, if_neg hneg, hdigits, List.cons_append]
    exact readValue_natural hc hread

theorem stringText_append (s : String) (rest : List Char) :
    stringText s ++ rest = '"' :: (s.toList.flatMap escaped ++ '"' :: rest) := by
  rw [stringText, List.cons_append, List.cons_append, List.append_assoc, List.singleton_append]

theorem readValue_string (s : String) (rest : List Char) :
    readValue (fuel + 1) depth (stringText s ++ rest) = .ok (.str s, rest) := by
  rw [stringText_append, readValue, skipLayout_cons rfl]
  simp [readString_flatMap]

/-! ### Arrays -/

theorem readValue_emptyList (rest : List Char) :
    readValue (fuel + 1) (depth + 1) ('[' :: ']' :: rest) = .ok (.arr [], rest) := by
  rw [readValue, skipLayout_cons rfl]
  simp [skipLayout_cons (rfl : isLayout ']' = false)]

/-- What is read as a value starts with neither layout nor a closing bracket. -/
theorem front_of_readValue {cs rest : List Char} {x : Json}
    (h : readValue fuel depth cs = .ok (x, rest)) :
    ∃ c tail, skipLayout cs = c :: tail ∧ c ≠ ']' ∧
      readValue fuel depth (c :: tail) = .ok (x, rest) := by
  cases fuel with
  | zero => rw [readValue] at h; cases h
  | succ fuel =>
    have hskip : skipLayout (skipLayout cs) = skipLayout cs := List.dropWhile_idempotent _ cs
    have hsame : readValue (fuel + 1) depth (skipLayout cs) = readValue (fuel + 1) depth cs := by
      rw [readValue, readValue, hskip]
    cases hfront : skipLayout cs with
    | nil => rw [readValue, hfront] at h; cases h
    | cons c tail =>
      refine ⟨c, tail, rfl, ?_, ?_⟩
      · rintro rfl
        rw [readValue, hfront] at h
        cases h
      · rw [← hfront, hsame, h]

section
variable {gap cs cs' rest : List Char} {x : Json} {xs : List Json} (hgap : IsGap gap)
  (hx : readValue fuel depth cs = .ok (x, cs'))
  (hxs : readItems fuel depth cs' = .ok (xs, rest))
include hgap hx hxs

theorem readValue_list :
    readValue (fuel + 1) (depth + 1) ('[' :: (gap ++ cs)) = .ok (.arr (x :: xs), rest) := by
  obtain ⟨c, tail, hfront, hc, hx⟩ := front_of_readValue hx
  rw [readValue, skipLayout_cons rfl]
  simp [skipLayout_gap hgap, hfront, hc, hx, hxs]

theorem readItems_next :
    readItems (fuel + 1) depth (',' :: (gap ++ cs)) = .ok (x :: xs, rest) := by
  obtain ⟨c, tail, hfront, hc, hx⟩ := front_of_readValue hx
  rw [readItems, skipLayout_cons rfl]
  simp [skipLayout_gap hgap, hfront, hc, hx, hxs]

end

theorem readItems_close {gap : List Char} (hgap : IsGap gap) (rest : List Char) :
    readItems (fuel + 1) depth (gap ++ ']' :: rest) = .ok ([], rest) := by
  rw [readItems, skipLayout_gap hgap, skipLayout_cons rfl]
  rfl

/-! ### Objects -/

theorem readMember_of_value {cs rest : List Char} {value : Json} (name : String)
    (hvalue : readValue fuel depth cs = .ok (value, rest)) :
    readMember (fuel + 1) depth (name.toList.flatMap escaped ++ '"' :: ':' :: cs)
      = .ok ((name, value), rest) := by
  rw [readMember, readString_flatMap]
  simp [skipLayout_cons (rfl : isLayout ':' = false), hvalue]

theorem readValue_emptyObject (rest : List Char) :
    readValue (fuel + 1) (depth + 1) ('\x7b' :: '\x7d' :: rest) = .ok (.obj [], rest) := by
  rw [readValue, skipLayout_cons rfl]
  simp [skipLayout_cons (rfl : isLayout '\x7d' = false)]

section
variable {gap cs cs' rest : List Char} {member : String × Json} {members : List (String × Json)}
  (hgap : IsGap gap) (hmember : readMember fuel depth cs = .ok (member, cs'))
  (hmembers : readMembers fuel depth cs' = .ok (members, rest))
include hgap hmember hmembers

theorem readValue_object :
    readValue (fuel + 1) (depth + 1) ('\x7b' :: (gap ++ '"' :: cs))
      = .ok (.obj (Fields.ofEntries (member :: members)), rest) := by
  rw [readValue, skipLayout_cons rfl]
  simp [skipLayout_gap hgap, skipLayout_cons (rfl : isLayout '"' = false), hmember, hmembers]

theorem readMembers_next :
    readMembers (fuel + 1) depth (',' :: (gap ++ '"' :: cs)) = .ok (member :: members, rest) := by
  rw [readMembers, skipLayout_cons rfl]
  simp [skipLayout_gap hgap, skipLayout_cons (rfl : isLayout '"' = false), hmember, hmembers]

end

theorem readMembers_close {gap : List Char} (hgap : IsGap gap) (rest : List Char) :
    readMembers (fuel + 1) depth (gap ++ '\x7d' :: rest) = .ok ([], rest) := by
  rw [readMembers, skipLayout_gap hgap, skipLayout_cons rfl]
  rfl

end FlowDocs.Json
