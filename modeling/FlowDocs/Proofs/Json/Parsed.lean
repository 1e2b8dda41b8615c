/-
  FlowDocs/Proofs/Json/Parsed.lean
  ================================
  **What has been read is well formed.**

  The reader keeps an integer as one only as long as a word holds it, builds the fields of
  an object name by name, and counts the levels it opens.  So the value it gives has the
  shape values have in memory, and it nests no deeper than the reader follows.
-/
import FlowDocs.Proofs.Json.WellFormed

namespace FlowDocs.Json

/-! ### Numbers -/

theorem isWord_of_assemble {negative : Bool} {significand : Nat} {power : Int}
    {cs rest : List Char} {n : Number}
    (h : assemble negative significand power cs = .ok (n, rest)) : n.IsWord := by
  unfold assemble at h
  split at h
  · obtain ⟨rfl, -⟩ := Prod.mk.inj (Except.ok.inj h)
    exact trivial
  · cases h

theorem isWord_of_readExponent {negative : Bool} {significand : Nat} {power : Int}
    {cs rest : List Char} {n : Number}
    (h : readExponent negative significand power cs = .ok (n, rest)) : n.IsWord := by
  unfold readExponent at h
  dsimp only at h
  split at h
  · cases h
  · split at h
    · split at h
      · exact isWord_of_assemble h
      · split_ifs at h
        · obtain ⟨rfl, -⟩ := Prod.mk.inj (Except.ok.inj h)
          exact trivial
    · cases h

theorem isWord_of_readScale {negative : Bool} {significand : Nat} {power : Int}
    {cs rest : List Char} {n : Number}
    (h : readScale negative significand power cs = .ok (n, rest)) : n.IsWord := by
  unfold readScale at h
  split at h
  · exact isWord_of_readExponent h
  · exact isWord_of_readExponent h
  · exact isWord_of_assemble h

theorem isWord_wholeNumber (negative : Bool) {significand : Nat} (h : significand ≤ maxWord) :
    (wholeNumber negative significand).IsWord := by
  unfold wholeNumber
  split
  · split
    · exact trivial
    · rename_i hfit
      rw [not_or, Nat.not_lt] at hfit
      exact ⟨by omega, by omega⟩
  · exact ⟨by omega, by omega⟩

theorem isWord_of_readFraction {negative : Bool} {significand dropped : Nat}
    {cs rest : List Char} {n : Number} (hfit : significand ≤ maxWord)
    (h : readFraction negative significand dropped cs = .ok (n, rest)) : n.IsWord := by
  unfold readFraction at h
  split at h
  · split at h
    · cases h
    · split at h
      · exact isWord_of_readScale h
      · cases h
  · exact isWord_of_readExponent h
  · exact isWord_of_readExponent h
  · split at h
    · obtain ⟨rfl, -⟩ := Prod.mk.inj (Except.ok.inj h)
      exact isWord_wholeNumber negative hfit
    · exact isWord_of_assemble h

theorem takeWhole_le {significand : Nat} (h : significand ≤ maxWord) (cs : List Char) :
    (takeWhole significand cs).1 ≤ maxWord := by
  induction cs generalizing significand with
  | nil => exact h
  | cons c cs ih =>
    unfold takeWhole
    split
    · dsimp only
      split
      · exact ih ‹_›
      · exact h
    · exact h

theorem digitValue_le (c : Char) : digitValue c ≤ maxWord :=
  (Nat.sub_le _ _).trans (c.val.toNat_lt.le.trans (by decide))

theorem isWord_of_readNumber {negative : Bool} {cs rest : List Char} {n : Number}
    (h : readNumber negative cs = .ok (n, rest)) : n.IsWord := by
  unfold readNumber at h
  split at h
  · cases h
  · rename_i c cs
    split at h
    · split at h
      · split at h
        · cases h
        · exact isWord_of_readFraction (Nat.zero_le _) h
      · exact isWord_of_readFraction (Nat.zero_le _) h
    · split at h
      · exact isWord_of_readFraction (takeWhole_le (digitValue_le c) cs) h
      · cases h

/-! ### Values -/

theorem value_of_readWord {value result : Json} {ws cs rest : List Char}
    (h : readWord value ws cs = .ok (result, rest)) : result = value := by
  induction ws generalizing cs with
  | nil =>
    rw [readWord] at h
    exact (Prod.mk.inj (Except.ok.inj h)).1.symm
  | cons w ws ih =>
    cases cs with
    | nil => cases h
    | cons c cs =>
      rw [readWord] at h
      split at h
      · exact ih h
      · cases h

/-- With so much fuel, every reader gives what its levels allow. -/
structure ReadsWithin (fuel : Nat) : Prop where
  value {depth : Nat} {cs rest : List Char} {value : Json} :
    readValue fuel depth cs = .ok (value, rest) → Within depth value
  items {depth : Nat} {cs rest : List Char} {items : List Json} :
    readItems fuel depth cs = .ok (items, rest) → ∀ item ∈ items, Within depth item
  member {depth : Nat} {cs rest : List Char} {member : String × Json} :
    readMember fuel depth cs = .ok (member, rest) → Within depth member.2
  members {depth : Nat} {cs rest : List Char} {members : List (String × Json)} :
    readMembers fuel depth cs = .ok (members, rest) → ∀ member ∈ members, Within depth member.2

namespace ReadsWithin

variable {fuel depth : Nat} {cs rest : List Char} (ih : ReadsWithin fuel)
include ih

theorem value_succ {value : Json} (h : readValue (fuel + 1) depth cs = .ok (value, rest)) :
    Within depth value := by
  rw [readValue] at h
  split at h
  · cases h
  rename_i c tail hskip
  -- one case for each character a value can start with
  by_cases hnull : c = 'n'
  · rw [if_pos hnull] at h
    rw [value_of_readWord h]
    exact within_null
  rw [if_neg hnull] at h
  by_cases htrue : c = 't'
  · rw [if_pos htrue] at h
    rw [value_of_readWord h]
    exact within_bool true
  rw [if_neg htrue] at h
  by_cases hfalse : c = 'f'
  · rw [if_pos hfalse] at h
    rw [value_of_readWord h]
    exact within_bool false
  rw [if_neg hfalse] at h
  by_cases hminus : c = '-'
  · rw [if_pos hminus] at h
    split at h
    · cases h
    rename_i hnumber
    obtain ⟨rfl, -⟩ := Prod.mk.inj (Except.ok.inj h)
    exact within_num.mpr (isWord_of_readNumber hnumber)
  rw [if_neg hminus] at h
  by_cases hdigit : c.isDigit = true
  · rw [if_pos hdigit] at h
    split at h
    · cases h
    rename_i hnumber
    obtain ⟨rfl, -⟩ := Prod.mk.inj (Except.ok.inj h)
    exact within_num.mpr (isWord_of_readNumber hnumber)
  rw [if_neg hdigit] at h
  by_cases hquote : c = '"'
  · rw [if_pos hquote] at h
    split at h
    · cases h
    obtain ⟨rfl, -⟩ := Prod.mk.inj (Except.ok.inj h)
    exact within_str _
  rw [if_neg hquote] at h
  by_cases hbracket : c = '['
  · rw [if_pos hbracket] at h
    split at h
    · cases h
    rename_i hdeep
    obtain ⟨depth, rfl⟩ := Nat.exists_eq_add_one_of_ne_zero hdeep
    split at h
    · cases h
    · obtain ⟨rfl, -⟩ := Prod.mk.inj (Except.ok.inj h)
      exact within_arr.mpr (List.forall_mem_nil _)
    · split at h
      · cases h
      rename_i hvalue
      split at h
      · cases h
      rename_i hitems
      obtain ⟨rfl, -⟩ := Prod.mk.inj (Except.ok.inj h)
      exact within_arr.mpr (List.forall_mem_cons.mpr ⟨ih.value hvalue, ih.items hitems⟩)
  rw [if_neg hbracket] at h
  by_cases hbrace : c = '\x7b'
  · rw [if_pos hbrace] at h
    split at h
    · cases h
    rename_i hdeep
    obtain ⟨depth, rfl⟩ := Nat.exists_eq_add_one_of_ne_zero hdeep
    split at h
    · cases h
    · obtain ⟨rfl, -⟩ := Prod.mk.inj (Except.ok.inj h)
      exact within_obj.mpr ⟨List.nodup_nil, List.forall_mem_nil _⟩
    · split at h
      · cases h
      rename_i hmember
      split at h
      · cases h
      rename_i hmembers
      obtain ⟨rfl, -⟩ := Prod.mk.inj (Except.ok.inj h)
      refine within_obj.mpr ⟨Fields.nodup_names_ofEntries _, ?_⟩
      intro field hfield
      rcases List.mem_cons.mp (Fields.mem_of_mem_ofEntries hfield) with rfl | hmem
      · exact ih.member hmember
      · exact ih.members hmembers field hmem
    · cases h
  rw [if_neg hbrace] at h
  cases h

theorem items_succ {items : List Json} (h : readItems (fuel + 1) depth cs = .ok (items, rest)) :
    ∀ item ∈ items, Within depth item := by
  rw [readItems] at h
  split at h
  · cases h
  · obtain ⟨rfl, -⟩ := Prod.mk.inj (Except.ok.inj h)
    exact List.forall_mem_nil _
  · split at h
    · cases h
    · cases h
    · split at h
      · cases h
      rename_i hvalue
      split at h
      · cases h
      rename_i hitems
      obtain ⟨rfl, -⟩ := Prod.mk.inj (Except.ok.inj h)
      exact List.forall_mem_cons.mpr ⟨ih.value hvalue, ih.items hitems⟩
  · cases h

theorem member_succ {member : String × Json}
    (h : readMember (fuel + 1) depth cs = .ok (member, rest)) : Within depth member.2 := by
  rw [readMember] at h
  split at h
  · cases h
  split at h
  · cases h
  · split at h
    · cases h
    rename_i hvalue
    obtain ⟨rfl, -⟩ := Prod.mk.inj (Except.ok.inj h)
    exact ih.value hvalue
  · cases h

theorem members_succ {members : List (String × Json)}
    (h : readMembers (fuel + 1) depth cs = .ok (members, rest)) :
    ∀ member ∈ members, Within depth member.2 := by
  rw [readMembers] at h
  split at h
  · cases h
  · obtain ⟨rfl, -⟩ := Prod.mk.inj (Except.ok.inj h)
    exact List.forall_mem_nil _
  · split at h
    · cases h
    · split at h
      · cases h
      rename_i hmember
      split at h
      · cases h
      rename_i hmembers
      obtain ⟨rfl, -⟩ := Prod.mk.inj (Except.ok.inj h)
      exact List.forall_mem_cons.mpr ⟨ih.member hmember, ih.members hmembers⟩
    · cases h
    · cases h
  · cases h

end ReadsWithin

theorem readsWithin (fuel : Nat) : ReadsWithin fuel := by
  induction fuel with
  | zero =>
    refine ⟨?_, ?_, ?_, ?_⟩ <;> intro depth cs rest result h
    · rw [readValue] at h; cases h
    · rw [readItems] at h; cases h
    · rw [readMember] at h; cases h
    · rw [readMembers] at h; cases h
  | succ fuel ih => exact ⟨ih.value_succ, ih.items_succ, ih.member_succ, ih.members_succ⟩

/-- **A value that was read** could be in memory, and the reader followed all its levels. -/
theorem within_of_parse {text : String} {value : Json} (h : parse text = .ok value) :
    Within maxDepth value := by
  have hread : readText text.toList = .ok value := by
    unfold parse at h
    split at h
    · rename_i found hfound
      rw [hfound, Except.ok.inj h]
    · cases h
  unfold readText at hread
  split at hread
  · cases hread
  · rename_i found rest hfound
    split at hread
    · rw [← Except.ok.inj hread]
      exact (readsWithin _).value hfound
    · cases hread

end FlowDocs.Json
