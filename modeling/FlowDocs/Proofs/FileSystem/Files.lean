/-
  FlowDocs/Proofs/FileSystem/Files.lean
  =====================================
  **A file is found where it was made.**

  A path is walked through directories.  While these stay, the walk leads to the same
  place, so after an operation that makes a file under a path the path leads to that file:
  `createFile` and `renameFile` both fill the `Slot` that the path names.
-/
import FlowDocs.FileSystem.Basic
import FlowDocs.Proofs.FileSystem.Tree
import Mathlib.Tactic.SplitIfs

namespace FlowDocs.FileSystem

open Node

/-! ### Walking -/

/-- What a step does, if it is possible. -/
theorem enter_eq_ok {root : Node} {place next : List String} {step : String}
    (h : enter root place step = .ok next) :
    root.HasDirectory place ∧
      (step = "." ∧ next = place ∨ step ≠ "." ∧ step = ".." ∧ next = place.dropLast ∨
        (step ≠ "." ∧ step ≠ "..") ∧ ¬ maxName < step.utf8ByteSize ∧ next = place ++ [step]) := by
  unfold enter at h
  split at h
  · rename_i entries hentries
    refine ⟨⟨entries, hentries⟩, ?_⟩
    split_ifs at h with hdot hup hlong hthere
    · exact Or.inl ⟨hdot, (Except.ok.inj h).symm⟩
    · exact Or.inr (Or.inl ⟨hdot, hup, (Except.ok.inj h).symm⟩)
    · exact Or.inr (Or.inr ⟨⟨hdot, hup⟩, hlong, (Except.ok.inj h).symm⟩)
  · cases h

/-- A name leads to what the directory has under it. -/
theorem enter_name {root : Node} {place : List String} {name : String}
    (hplace : root.HasDirectory place) (hname : name ≠ "." ∧ name ≠ "..")
    (hshort : ¬ maxName < name.utf8ByteSize) (hthere : (root.at? (place ++ [name])).isSome) :
    enter root place name = .ok (place ++ [name]) := by
  obtain ⟨entries, hentries⟩ := hplace
  have hget : (Fields.get? entries name).isSome := by
    rw [at?_append, hentries, Option.bind_some, at?] at hthere
    exact Option.isSome_of_isSome_bind hthere
  rw [enter, hentries]
  simp only [if_neg hname.1, if_neg hname.2, if_neg hshort, if_pos hget]

theorem enter_keeps {root root' : Node} (hkeep : root.KeepsDirectories root')
    {place next : List String} {step : String} (h : enter root place step = .ok next)
    (hnext : root.HasDirectory next) : enter root' place step = .ok next := by
  obtain ⟨hplace, hcases⟩ := enter_eq_ok h
  obtain ⟨entries, hentries⟩ := hkeep place hplace
  rcases hcases with ⟨rfl, rfl⟩ | ⟨hdot, rfl, rfl⟩ | ⟨hname, hshort, rfl⟩
  · rw [enter, hentries]
    rfl
  · rw [enter, hentries]
    rfl
  · obtain ⟨inner, hinner⟩ := hkeep _ hnext
    exact enter_name ⟨entries, hentries⟩ hname hshort (by rw [hinner]; rfl)

theorem hasDirectory_of_follow {root : Node} {place goal : List String} {steps : List String}
    (h : follow root place steps = .ok goal) (hgoal : root.HasDirectory goal) :
    root.HasDirectory place := by
  cases steps with
  | nil =>
    rw [follow] at h
    exact Except.ok.inj h ▸ hgoal
  | cons step rest =>
    rw [follow] at h
    split at h
    · cases h
    · rename_i next henter
      exact (enter_eq_ok henter).1

/-- A walk to a directory needs nothing but directories. -/
theorem follow_keeps {root root' : Node} (hkeep : root.KeepsDirectories root')
    {place goal : List String} {steps : List String} (h : follow root place steps = .ok goal)
    (hgoal : root.HasDirectory goal) : follow root' place steps = .ok goal := by
  induction steps generalizing place with
  | nil =>
    rw [follow] at h ⊢
    exact h
  | cons step rest ih =>
    rw [follow] at h ⊢
    split at h
    · cases h
    · rename_i next henter
      rw [enter_keeps hkeep henter (hasDirectory_of_follow h hgoal)]
      exact ih h

theorem follow_append {root : Node} {place middle : List String} {front : List String}
    (h : follow root place front = .ok middle) (back : List String) :
    follow root place (front ++ back) = follow root middle back := by
  induction front generalizing place with
  | nil =>
    rw [follow] at h
    rw [List.nil_append, Except.ok.inj h]
  | cons step front ih =>
    rw [follow] at h
    rw [List.cons_append, follow]
    split at h
    · cases h
    · exact ih h

/-! ### Places for files -/

/-- A path that names a place for a file, whether a file is there or nothing. -/
structure Slot (fs : FileSystem) (text : String) (target : Target) (name : String) : Prop where
  found : fs.target text = .ok target
  named : target.name = some name
  plain : target.wantsDirectory = false
  short : ¬ maxName < name.utf8ByteSize
  free : ∀ entries, Fields.get? target.entries name ≠ some (.directory entries)

/-- What the target of a path is, if it has one. -/
theorem target_eq_ok {fs : FileSystem} {text : String} {target : Target}
    (h : fs.target text = .ok target) :
    ∃ path, checked text = .ok path ∧
      follow fs.root (fs.start path) path.steps.dropLast = .ok target.directory ∧
      fs.root.at? target.directory = some (.directory target.entries) ∧
      target.name = path.steps.getLast?.filter (fun name => name ≠ "." && name ≠ "..") ∧
      target.wantsDirectory = path.wantsDirectory := by
  unfold FileSystem.target at h
  split at h
  · cases h
  · rename_i path hpath
    split at h
    · cases h
    · rename_i directory hfollow
      split at h
      · rename_i entries hentries
        obtain rfl := Except.ok.inj h
        exact ⟨path, hpath, hfollow, hentries, rfl, rfl⟩
      · cases h

theorem createFile_eq_ok {fs fs' : FileSystem} {text : String} {content : ByteArray}
    (h : fs.createFile text content = .ok fs') :
    ∃ target name, fs.Slot text target name ∧ fs' = fs.put (target.place name) (.file content) := by
  unfold createFile at h
  split at h
  · cases h
  · rename_i target htarget
    split at h
    · cases h
    · rename_i name hname
      split_ifs at h with hwants hlong
      split at h
      · cases h
      · rename_i hfree
        exact ⟨target, name, ⟨htarget, hname, by simpa using hwants, hlong, hfree⟩,
          (Except.ok.inj h).symm⟩

theorem renameFile_eq_ok {fs fs' : FileSystem} {source text : String}
    (h : fs.renameFile source text = .ok fs') :
    ∃ place content target name, fs.locate source = .ok (place, .file content) ∧
      fs.Slot text target name ∧
      fs' = (fs.take place).put (target.place name) (.file content) := by
  unfold renameFile at h
  split at h
  · cases h
  · cases h
  · cases h
  · rename_i place content target hlocate htarget
    split at h
    · cases h
    · rename_i name hname
      split_ifs at h with hlong hwants
      split at h
      · cases h
      · rename_i hfree
        exact ⟨place, content, target, name, hlocate,
          ⟨htarget, hname, by simpa using hwants, hlong, hfree⟩, (Except.ok.inj h).symm⟩

theorem at?_of_locate {fs : FileSystem} {text : String} {place : List String} {node : Node}
    (h : fs.locate text = .ok (place, node)) : fs.root.at? place = some node := by
  unfold locate at h
  split at h
  · cases h
  · split at h
    · cases h
    · split at h
      · cases h
      · rename_i found hfound
        split at h
        · cases h
        · obtain ⟨rfl, rfl⟩ := Prod.mk.inj (Except.ok.inj h)
          exact hfound

namespace Slot

variable {fs : FileSystem} {text : String} {target : Target} {name : String}

theorem directory (h : fs.Slot text target name) : fs.root.HasDirectory target.directory := by
  obtain ⟨path, -, -, hentries, -, -⟩ := target_eq_ok h.found
  exact ⟨target.entries, hentries⟩

theorem not_hasDirectory (h : fs.Slot text target name) :
    ¬ fs.root.HasDirectory (target.place name) := by
  obtain ⟨path, -, -, hentries, -, -⟩ := target_eq_ok h.found
  rintro ⟨inner, hinner⟩
  rw [Target.place, at?_append, hentries, Option.bind_some, at?] at hinner
  obtain ⟨below, hget, hbelow⟩ := Option.bind_eq_some_iff.mp hinner
  rw [at?] at hbelow
  obtain rfl := Option.some.inj hbelow
  exact h.free inner hget

/-- The path leads to the file in its place, in every tree that still has the directories. -/
theorem locate (h : fs.Slot text target name) {root : Node} {content : ByteArray}
    (hkeep : fs.root.KeepsDirectories root)
    (hfile : root.at? (target.place name) = some (.file content)) :
    FileSystem.locate { fs with root := root } text = .ok (target.place name, .file content) := by
  obtain ⟨path, hpath, hfollow, -, hname, hwants⟩ := target_eq_ok h.found
  rw [h.named] at hname
  obtain ⟨hlast, hproper⟩ := Option.filter_eq_some_iff.mp hname.symm
  have hdirectory := h.directory
  obtain ⟨front, hsteps⟩ := List.getLast?_eq_some_iff.mp hlast
  rw [hsteps, List.dropLast_concat] at hfollow
  have henter : enter root target.directory name = .ok (target.place name) :=
    enter_name (hkeep _ hdirectory) (by simpa using hproper) h.short
      (by rw [← Target.place, hfile]; rfl)
  have hwalk : follow root (fs.start path) path.steps = .ok (target.place name) := by
    rw [hsteps, follow_append (follow_keeps hkeep hfollow hdirectory), follow, henter]
    rfl
  have hplain : path.wantsDirectory = false := hwants ▸ h.plain
  rw [FileSystem.locate, hpath]
  simp only [start] at hwalk ⊢
  rw [hwalk]
  simp only [hfile, hplain, Bool.false_and, Bool.false_eq_true, if_false]

end Slot

theorem locate_of_createFile {fs fs' : FileSystem} {text : String} {content : ByteArray}
    (h : fs.createFile text content = .ok fs') :
    ∃ place, fs'.locate text = .ok (place, .file content) := by
  obtain ⟨target, name, hslot, rfl⟩ := createFile_eq_ok h
  obtain ⟨entries, hentries⟩ := hslot.directory
  exact ⟨target.place name, hslot.locate (keepsDirectories_put hslot.not_hasDirectory _)
    (at?_put_self hentries name _)⟩

/-- What was at the source is at the path afterwards. -/
theorem locate_of_renameFile {fs fs' : FileSystem} {source text : String} {place : List String}
    {content : ByteArray} (h : fs.renameFile source text = .ok fs')
    (hsource : fs.locate source = .ok (place, .file content)) :
    ∃ place', fs'.locate text = .ok (place', .file content) := by
  obtain ⟨place', content', target, name, hlocate, hslot, rfl⟩ := renameFile_eq_ok h
  obtain ⟨rfl, hnode⟩ := Prod.mk.inj (Except.ok.inj (hlocate.symm.trans hsource))
  obtain rfl := Node.file.inj hnode
  have hfile : ¬ fs.root.HasDirectory place' := by
    rintro ⟨entries, hentries⟩
    rw [at?_of_locate hsource] at hentries
    cases hentries
  have htake := keepsDirectories_take hfile
  obtain ⟨entries, hentries⟩ := htake _ hslot.directory
  have hfree : ¬ (fs.take place').root.HasDirectory (target.place name) :=
    fun hinner => hslot.not_hasDirectory (hasDirectory_of_take hinner)
  have hput := keepsDirectories_put hfree (.file content')
  exact ⟨target.place name, hslot.locate (htake.trans hput) (at?_put_self hentries name _)⟩

end FlowDocs.FileSystem
