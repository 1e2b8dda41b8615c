/-
  FlowDocs/Proofs/FileSystem/Atomicity.lean
  =========================================
  **A file is written as a whole or not at all.**

  A write makes directories, makes the temporary file, and moves it to the target.  The
  first only grows the tree, the second fills one place, and the third empties that place
  again: by taking the target's place, or by removal.  So the target is the only file that
  can change, and it changes only if everything succeeds.
-/
import FlowDocs.Proofs.FileSystem.Effects
import FlowDocs.Proofs.FileSystem.Writing

namespace FlowDocs

namespace FileSystem

/-- The place of another entry in the directory that a path names an entry of. -/
def besides (fs : FileSystem) (path name : String) : List String :=
  (fs.placeOf path).dropLast ++ [name]

end FileSystem

namespace Disk

open FileSystem Node PathName

variable {fs fs' : FileSystem} {path : String} {content : ByteArray}

/-! ### The directory of the target -/

/-- A sequence only makes directories if its parts do. -/
theorem grown_bind {α β : Type} {area : List String → Prop} {work : Disk α} {next : α → Disk β}
    (h : Grown area fs (work.run fs).2)
    (hnext : ∀ value, Grown area (work.run fs).2 ((next value).run (work.run fs).2).2) :
    Grown area fs ((work >>= next).run fs).2 := by
  rw [run_bind]
  rcases hrun : work.run fs with ⟨failure | value, between⟩
  · rwa [hrun] at h
  · rw [hrun] at h hnext
    exact h.trans (hnext value)

theorem run_createDirectories (attempt : Attempt) (path : String) (fs : FileSystem) :
    (createDirectories attempt path).run fs
      = ((makeDirectories (ancestors path) fs).1.mapError (Failure.io attempt path),
        (makeDirectories (ancestors path) fs).2) := by
  rw [createDirectories, run_get_bind]
  rcases makeDirectories (ancestors path) fs with ⟨cause | done, between⟩
  · rfl
  · rfl

theorem createDirectories_eq_ok {attempt : Attempt}
    (h : (createDirectories attempt path).run fs = (.ok (), fs')) :
    makeDirectories (ancestors path) fs = (.ok (), fs') := by
  rw [run_createDirectories] at h
  rcases hmake : makeDirectories (ancestors path) fs with ⟨cause | ⟨⟨⟩⟩, between⟩
  · rw [hmake] at h
    cases h
  · rw [hmake] at h
    cases h
    rfl

theorem grown_createDirectories (attempt : Attempt) (path : String) (fs : FileSystem) :
    Grown (fun place => ∃ text ∈ ancestors path, place = fs.placeOf text) fs
      ((createDirectories attempt path).run fs).2 := by
  rw [run_createDirectories]
  exact grown_makeDirectories (ancestors path) fs

/-- Before a file is written, directories may be made on the way to it. -/
theorem grown_createParent (path : String) (fs : FileSystem) :
    Grown (fs.Above path) fs ((createParent path).run fs).2 := by
  rw [createParent]
  split
  · exact .refl fs
  · rename_i parent hparent
    rw [run_get_bind]
    split_ifs with hthere
    · exact .refl fs
    · have hne : parent ≠ "" := fun hempty => hthere (by simp [hempty])
      obtain ⟨habs, back, hsteps, step, hstep, hproper⟩ := steps_of_parent? hparent hne
      apply (grown_createDirectories .createParent parent fs).mono
      rintro place ⟨text, htext, rfl⟩
      obtain ⟨habs', rest, hrest⟩ := steps_of_mem_ancestors htext
      refine above_of_front fs (habs'.trans habs) (by rw [hsteps, ← hrest, List.append_assoc])
        ⟨step, List.mem_append_right rest hstep, hproper⟩

/-! ### The temporary file -/

/-- The name of the temporary file beside a target. -/
def temporaryName (name : String) : String := "." ++ name ++ ".tmp"

theorem length_temporaryName (name : String) :
    (temporaryName name).toList.length = name.toList.length + 5 := by
  simp [temporaryName]

theorem isEntryName_temporaryName {name : String} (h : IsEntryName name) :
    IsEntryName (temporaryName name) := by
  have hlong : ∀ other : String, other.toList.length < 5 → temporaryName name ≠ other := by
    rintro other hshort rfl
    rw [length_temporaryName] at hshort
    omega
  refine ⟨hlong "" (by decide), hlong "." (by decide), hlong ".." (by decide), ?_⟩
  simpa [temporaryName] using h.slashless

/-- The temporary file is another entry of the target's directory. -/
theorem temporaryFor?_eq_some {temporary : String} (fs : FileSystem)
    (h : temporaryFor? path = some temporary) :
    ∃ name, fileName? path = some name ∧
      fs.placeOf temporary = fs.besides path (temporaryName name) ∧
      fs.placeOf temporary ≠ fs.placeOf path := by
  obtain ⟨name, hname, rfl⟩ := Option.map_eq_some_iff.mp h
  obtain ⟨parent, hparent, hentry, hplace⟩ := placeOf_of_fileName? fs hname
  have htemporary := placeOf_join fs parent (isEntryName_temporaryName hentry)
  rw [temporaryName] at htemporary
  rw [hparent, Option.getD_some, htemporary, hplace]
  refine ⟨name, hname, by rw [besides, hplace, List.dropLast_concat, temporaryName], ?_⟩
  intro hsame
  have hlength := length_temporaryName name
  rw [temporaryName, List.singleton_inj.mp (List.append_cancel_left hsame)] at hlength
  omega

/-- The place of the temporary file of a path holds no file. -/
def NoLeftover (fs : FileSystem) (path : String) : Prop :=
  ∀ name, fileName? path = some name →
    ∀ content, fs.root.occupant? (fs.besides path (temporaryName name)) ≠ some (.file content)

theorem NoLeftover.of_grown {area : List String → Prop} (h : NoLeftover fs path)
    (hgrown : Grown area fs fs') : NoLeftover fs' path := by
  intro name hname bytes
  rw [ne_eq, hgrown.file_iff, besides, placeOf_congr hgrown.workingDirectory]
  exact h name hname bytes

/-- The temporary file is found where it was made, and without it all is as before. -/
theorem temporary_of_createFile {before between : FileSystem} {temporary : String}
    (hnew : NoLeftover fs path) (hgrown : Grown (fs.Above path) fs before)
    (htemporary : temporaryFor? path = some temporary)
    (hcreate : before.createFile temporary content = .ok between) :
    between.workingDirectory = before.workingDirectory ∧
      (∃ place, between.locate temporary = .ok (place, .file content)) ∧
      between.placeOf temporary ≠ [] ∧
      ∀ place, (if place = between.placeOf temporary then none else between.root.occupant? place)
        = before.root.occupant? place := by
  obtain ⟨name, hname, hbeside, -⟩ := temporaryFor?_eq_some fs htemporary
  obtain ⟨hdir, hplain, hfilled⟩ := createFile_changes hcreate
  rw [placeOf_congr hdir]
  have hbefore : before.placeOf temporary = fs.besides path (temporaryName name) :=
    (placeOf_congr hgrown.workingDirectory temporary).trans hbeside
  have hempty : before.root.occupant? (before.placeOf temporary) = none := by
    cases hthere : before.root.occupant? (before.placeOf temporary) with
    | none => rfl
    | some occupant =>
      cases occupant with
      | directory => exact absurd hthere hplain
      | file bytes =>
        rw [hgrown.file_iff, hbefore] at hthere
        exact absurd hthere (hnew name hname bytes)
  refine ⟨hdir, locate_of_createFile hcreate, by simp [hbefore, besides], fun place => ?_⟩
  split
  · rename_i hself
    rw [hself, hempty]
  · rename_i hself
    rw [hfilled, if_neg hself]

/-! ### The write -/

/-- A successful write fills the place of its path.  What the path passes are directories
    now, if need be new ones, and nothing else has changed. -/
theorem writeWhole_changes (hnew : NoLeftover fs path)
    (h : (writeWhole path content).run fs = (.ok (), fs')) :
    fs'.workingDirectory = fs.workingDirectory ∧
      fs'.root.occupant? (fs.placeOf path) = some (.file content) ∧
      (∃ name, fileName? path = some name ∧
        fs'.root.occupant? (fs.besides path (temporaryName name)) = none) ∧
      (∀ place, fs.Above path place → fs'.root.occupant? place = some .directory) ∧
      ∀ place, place ≠ fs.placeOf path → fs'.root.occupant? place = fs.root.occupant? place ∨
        fs.root.occupant? place = none ∧ fs.Above path place ∧
          fs'.root.occupant? place = some .directory := by
  obtain ⟨temporary, before, between, htemporary, hparent, hcreate, hrename⟩ := writeWhole_eq_ok h
  have hgrown := grown_createParent path fs
  rw [hparent] at hgrown
  obtain ⟨hdir, ⟨place, hlocate⟩, hne, hwithout⟩ :=
    temporary_of_createFile hnew hgrown htemporary hcreate
  have hdir := hdir.trans hgrown.workingDirectory
  obtain ⟨hdir', hway, hmoved⟩ := renameFile_changes hrename hlocate hne
  rw [above_congr hdir] at hway
  rw [placeOf_congr hdir path] at hmoved
  refine ⟨hdir'.trans hdir, by rw [hmoved, if_pos rfl], ?_, hway, fun place hplace => ?_⟩
  · obtain ⟨name, hname, hbeside, hother⟩ := temporaryFor?_eq_some fs htemporary
    refine ⟨name, hname, ?_⟩
    rw [← hbeside, hmoved, if_neg hother, placeOf_congr hdir, if_pos rfl]
  · rw [hmoved, if_neg hplace, hwithout]
    exact hgrown.occupant place

/-- A write that fails leaves no more behind than directories on the way to its target. -/
theorem grown_of_writeWhole {failure : Failure} (hnew : NoLeftover fs path)
    (h : (writeWhole path content).run fs = (.error failure, fs')) :
    Grown (fs.Above path) fs fs' := by
  have hgrown := grown_createParent path fs
  rcases run_bind_eq_error.mp h with hparent | ⟨⟨⟩, before, hparent, hwrite⟩
  · rwa [hparent] at hgrown
  rw [hparent] at hgrown
  split at hwrite
  · cases hwrite
    exact hgrown
  · rename_i temporary htemporary
    rcases run_bind_eq_error.mp hwrite with hchange | ⟨⟨⟩, between, hchange, hreplace⟩
    · rwa [change_eq_error hchange]
    · obtain ⟨hdir, ⟨place, hlocate⟩, hne, hwithout⟩ :=
        temporary_of_createFile hnew hgrown htemporary (change_eq_ok hchange)
      obtain ⟨after, hremove, hdir', hgone⟩ := removeFile_of_locate hlocate hne
      rw [replace_eq_error hreplace hremove]
      refine hgrown.trans ⟨hdir'.trans hdir, fun place => Or.inl ?_⟩
      rw [hgone, hwithout]

/-- **All or nothing.**  Take any tree, any path and any content, and let no file stand where
    the temporary file will be.  A write that succeeds leaves the content at the path and
    directories at all that the path passes; every other file is as it was, and so is every
    other place, but for directories on the way to the path that were missing.  A write that
    fails leaves every file as it was and makes no new one.  Either way the temporary file
    is gone. -/
theorem writeWhole_all_or_nothing (hnew : NoLeftover fs path) {result : Except Failure Unit}
    (h : (writeWhole path content).run fs = (result, fs')) :
    (result = .ok () →
      fs'.readBytes path = .ok content ∧
      fs'.root.occupant? (fs.placeOf path) = some (.file content) ∧
      (∀ place, fs.Above path place → fs'.root.occupant? place = some .directory) ∧
      (∀ place, place ≠ fs.placeOf path → fs'.root.occupant? place = fs.root.occupant? place ∨
        fs.root.occupant? place = none ∧ fs.Above path place ∧
          fs'.root.occupant? place = some .directory) ∧
      ∃ name, fileName? path = some name ∧
        fs'.root.occupant? (fs.besides path (temporaryName name)) = none) ∧
    (∀ failure, result = .error failure →
      (∀ place bytes, fs'.root.occupant? place = some (.file bytes)
        ↔ fs.root.occupant? place = some (.file bytes)) ∧
      (∀ place, fs'.root.occupant? place = fs.root.occupant? place ∨
        fs.root.occupant? place = none ∧ fs.Above path place ∧
          fs'.root.occupant? place = some .directory) ∧
      NoLeftover fs' path) ∧
    fs'.workingDirectory = fs.workingDirectory := by
  cases result with
  | ok done =>
    obtain ⟨hdir, hself, hgone, hway, hrest⟩ := writeWhole_changes hnew h
    refine ⟨fun _ => ⟨readBytes_of_writeWhole h, hself, hway, hrest, hgone⟩, ?_, hdir⟩
    intro failure hfailure
    cases hfailure
  | error failure =>
    have hgrown := grown_of_writeWhole hnew h
    refine ⟨fun hok => (by cases hok), ?_, hgrown.workingDirectory⟩
    rintro failure -
    exact ⟨fun place bytes => hgrown.file_iff, hgrown.occupant, hnew.of_grown hgrown⟩

/-- A working directory that holds one file. -/
def tray : FileSystem := ⟨.directory [("old", .file "1".toUTF8)], []⟩

theorem writeWhole_all_or_nothing_tray :
    NoLeftover tray "new/t" ∧
      ∃ fs', (writeWhole "new/t" "2".toUTF8).run tray = (.ok (), fs') ∧
        fs'.readBytes "new/t" = .ok "2".toUTF8 ∧
        fs'.root.occupant? (tray.besides "new/t" (temporaryName "t")) = none := by
  have hname : fileName? "new/t" = some "t" := by decide +kernel
  have hnew : NoLeftover tray "new/t" := by
    intro name h bytes hfile
    obtain rfl := Option.some.inj (hname.symm.trans h)
    cases hfile
  have hrun : (writeWhole "new/t" "2".toUTF8).run tray
      = (.ok (), ((writeWhole "new/t" "2".toUTF8).run tray).2) := Prod.ext rfl rfl
  obtain ⟨hread, -, -, -, name, hname', hgone⟩ := (writeWhole_all_or_nothing hnew hrun).1 rfl
  obtain rfl := Option.some.inj (hname.symm.trans hname')
  exact ⟨hnew, _, hrun, hread, hgone⟩

end Disk
end FlowDocs
