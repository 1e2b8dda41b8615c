/-
  FlowDocs/Proofs/FileSystem/Entries.lean
  =======================================
  **From a directory to its entries.**

  On a disk the entries of a directory have names of their own, and each name can be stepped
  into.  So from the path of a directory the joined paths lead to its entries, one by one,
  as long as their text is not too long.
-/
import FlowDocs.Proofs.FileSystem.Descent
import FlowDocs.Proofs.Json.Entries

namespace FlowDocs

open PathName

/-- A name that an entry of a directory can have. -/
structure IsDiskName (name : String) : Prop extends IsEntryName name where
  nulless : '\x00' ∉ name.toList
  short : ¬ FileSystem.maxName < name.utf8ByteSize

theorem isDiskName_iff {name : String} :
    IsDiskName name ↔
      IsEntryName name ∧ '\x00' ∉ name.toList ∧ ¬ FileSystem.maxName < name.utf8ByteSize := by
  constructor
  · exact fun h => ⟨h.toIsEntryName, h.nulless, h.short⟩
  · rintro ⟨hentry, hnul, hshort⟩
    exact ⟨hentry, hnul, hshort⟩

instance (name : String) : Decidable (IsDiskName name) := decidable_of_iff _ isDiskName_iff.symm

namespace Node

/-- A tree that can be on a disk. -/
inductive WellFormed : Node → Prop
  | file (content : ByteArray) : WellFormed (.file content)
  | directory {entries : List (String × Node)} (distinct : (Fields.names entries).Nodup)
      (named : ∀ name ∈ Fields.names entries, IsDiskName name)
      (below : ∀ entry ∈ entries, WellFormed entry.2) : WellFormed (.directory entries)

end Node

namespace FileSystem

variable {fs : FileSystem} {path : String} {node : Node}

/-- A path that leads to a node, unless its text is too long. -/
structure Leads (fs : FileSystem) (path : String) (node : Node) : Prop where
  found : ∃ place, follow fs.root (fs.start (ofText path)) (ofText path).steps = .ok place ∧
    fs.root.at? place = some node
  ne_empty : path ≠ ""
  nulless : '\x00' ∉ path.toList

theorem Leads.checked (h : fs.Leads path node) :
    FileSystem.checked path
      = if tooLong path then .error .nameTooLong else .ok (ofText path) := by
  rw [FileSystem.checked, if_neg h.ne_empty, if_neg h.nulless]

theorem Leads.locate_of_tooLong (h : fs.Leads path node) (hlong : tooLong path = true) :
    fs.locate path = .error .nameTooLong := by
  rw [locate, h.checked, if_pos hlong]

theorem Leads.locate (h : fs.Leads path node) (hshort : tooLong path = false)
    (hwants : (ofText path).wantsDirectory = true → node.isDirectory = true) :
    ∃ place, fs.locate path = .ok (place, node) := by
  obtain ⟨place, hfollow, hnode⟩ := h.found
  have hfits : (PathName.wantsDirectory (ofText path) && !node.isDirectory) = false := by
    cases hw : (ofText path).wantsDirectory with
    | false => rfl
    | true => rw [hwants hw]; rfl
  refine ⟨place, ?_⟩
  rw [FileSystem.locate, h.checked, if_neg (by simp [hshort])]
  simp only [hfollow, hnode, hfits, Bool.false_eq_true, if_false]

theorem entries_eq_ok {entries : Fields Node} (h : fs.entries path = .ok entries) :
    ∃ place, fs.locate path = .ok (place, .directory entries) := by
  unfold FileSystem.entries at h
  split at h
  · cases h
  · rename_i place inner hlocate
    obtain rfl := Except.ok.inj h
    exact ⟨place, hlocate⟩
  · cases h

theorem leads_of_locate {place : List String} (h : fs.locate path = .ok (place, node)) :
    fs.Leads path node ∧ tooLong path = false := by
  obtain ⟨hchecked, hfollow⟩ := follow_of_locate h
  rw [FileSystem.checked] at hchecked
  split_ifs at hchecked with hempty hnul hlong
  exact ⟨⟨⟨place, hfollow, at?_of_locate h⟩, hempty, hnul⟩, by simpa using hlong⟩

/-- A name leads from a directory to its entry. -/
theorem Leads.join {entries : Fields Node} {name : String} (h : fs.Leads path (.directory entries))
    (hname : IsDiskName name) (hget : Fields.get? entries name = some node) :
    fs.Leads (PathName.join path name) node := by
  obtain ⟨place, hfollow, hdirectory⟩ := h.found
  have hentry : fs.root.at? (place ++ [name]) = some node := by
    rw [Node.at?_append, hdirectory, Option.bind_some, Node.at?, hget]
    rfl
  refine ⟨⟨place ++ [name], ?_, hentry⟩, join_ne_empty path hname.toIsEntryName, fun hnul => ?_⟩
  · rw [steps_join path hname.toIsEntryName,
      start_congr rfl (isAbsolute_join path hname.toIsEntryName), follow_append hfollow, follow,
      enter_name ⟨entries, hdirectory⟩ ⟨hname.ne_here, hname.ne_up⟩ hname.short
        (by rw [hentry]; rfl)]
    rfl
  · rcases mem_join hnul with hbase | hslash | hentry
    · exact h.nulless hbase
    · exact absurd hslash (by decide)
    · exact hname.nulless hentry

/-- What the joined path leads to can be read off the entry, but for its length. -/
theorem Leads.locate_join {entries : Fields Node} {name : String}
    (h : fs.Leads path (.directory entries)) (hname : IsDiskName name)
    (hget : Fields.get? entries name = some node)
    (hshort : tooLong (PathName.join path name) = false) :
    ∃ place, fs.locate (PathName.join path name) = .ok (place, node) := by
  refine (h.join hname hget).locate hshort fun hwants => ?_
  rw [wantsDirectory_join path hname.toIsEntryName] at hwants
  exact absurd hwants Bool.false_ne_true

/-- A joined path leads to a file if the entry is one, unless the path is too long. -/
theorem Leads.isFile_join_iff {entries : Fields Node} {name : String}
    (h : fs.Leads path (.directory entries)) (hname : IsDiskName name)
    (hget : Fields.get? entries name = some node) :
    fs.isFile (PathName.join path name) = true ↔
      node.isDirectory = false ∧ tooLong (PathName.join path name) = false := by
  rw [isFile]
  cases hlong : tooLong (PathName.join path name) with
  | true =>
    rw [(h.join hname hget).locate_of_tooLong hlong]
    simp
  | false =>
    obtain ⟨place, hlocate⟩ := h.locate_join hname hget hlong
    rw [hlocate]
    cases node <;> simp [Node.isDirectory]

end FileSystem
end FlowDocs
