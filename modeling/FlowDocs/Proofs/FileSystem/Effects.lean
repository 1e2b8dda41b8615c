/-
  FlowDocs/Proofs/FileSystem/Effects.lean
  =======================================
  **What an operation changes, place by place.**

  Every operation that succeeds changes what stands at the places of its paths and at no
  other place.  `Grown` is the change that making directories amounts to, however many are
  asked for and wherever it stops: some empty places are directories now.
-/
import FlowDocs.Proofs.FileSystem.Places

namespace FlowDocs.FileSystem

open Node PathName

variable {fs fs' : FileSystem} {text : String}

/-! ### Single operations -/

/-- An operation for a path that names an entry puts it at the place of the path. -/
theorem occupant?_put_target {target : Target} {name : String} {new : Node}
    (h : fs.target text = .ok target) (hname : target.name = some name)
    (hfree : ¬ fs.root.HasDirectory (fs.placeOf text))
    (hnew : ∀ step rest, new.occupant? (step :: rest) = none) (place : List String) :
    (fs.put (target.place name) new).root.occupant? place
      = if place = fs.placeOf text then some new.occupant else fs.root.occupant? place := by
  obtain ⟨hplace, hdirectory, -, -⟩ := target_named h hname
  rw [← hplace] at hfree ⊢
  exact occupant?_put hdirectory hfree hnew place

theorem makeDirectory_eq_ok (h : fs.makeDirectory text = .ok fs') :
    fs'.workingDirectory = fs.workingDirectory ∧ fs.root.occupant? (fs.placeOf text) = none ∧
      ∀ place, fs'.root.occupant? place
        = if place = fs.placeOf text then some .directory else fs.root.occupant? place := by
  unfold makeDirectory at h
  split at h
  · cases h
  · rename_i target htarget
    split at h
    · cases h
    · rename_i name hname
      split_ifs at h with hlong hthere
      obtain ⟨hplace, -, hget, -⟩ := target_named htarget hname
      have hempty : fs.root.occupant? (fs.placeOf text) = none := by
        rw [← hplace, occupant?_eq_none_iff, ← hget]
        simpa using hthere
      have hfree : ¬ fs.root.HasDirectory (fs.placeOf text) := by
        rw [← occupant?_eq_directory_iff, hempty]
        simp
      obtain rfl := Except.ok.inj h
      exact ⟨rfl, hempty, occupant?_put_target htarget hname hfree fun _ _ => rfl⟩

theorem Slot.placeOf_not_directory {target : Target} {name : String}
    (h : fs.Slot text target name) : ¬ fs.root.HasDirectory (fs.placeOf text) :=
  (target_named h.found h.named).1 ▸ h.not_hasDirectory

theorem createFile_changes {content : ByteArray} (h : fs.createFile text content = .ok fs') :
    fs'.workingDirectory = fs.workingDirectory ∧
      fs.root.occupant? (fs.placeOf text) ≠ some .directory ∧
      ∀ place, fs'.root.occupant? place
        = if place = fs.placeOf text then some (.file content) else fs.root.occupant? place := by
  obtain ⟨target, name, hslot, rfl⟩ := createFile_eq_ok h
  refine ⟨rfl, mt occupant?_eq_directory_iff.mp hslot.placeOf_not_directory, ?_⟩
  exact occupant?_put_target hslot.found hslot.named hslot.placeOf_not_directory
    (occupant?_file_cons content)

theorem occupant?_of_locate {place : List String} {node : Node}
    (h : fs.locate text = .ok (place, node)) :
    fs.root.occupant? (fs.placeOf text) = some node.occupant := by
  rw [occupant?, ← placeOf_of_locate h, at?_of_locate h]
  rfl

/-- A file that is there can be removed, and its place is empty then. -/
theorem removeFile_of_locate {place : List String} {content : ByteArray}
    (h : fs.locate text = .ok (place, .file content)) (hne : fs.placeOf text ≠ []) :
    ∃ fs', fs.removeFile text = .ok fs' ∧ fs'.workingDirectory = fs.workingDirectory ∧
      ∀ place, fs'.root.occupant? place
        = if place = fs.placeOf text then none else fs.root.occupant? place := by
  refine ⟨fs.take (fs.placeOf text), ?_, rfl, occupant?_take hne (occupant?_of_locate h)⟩
  rw [removeFile, h, ← placeOf_of_locate h]

/-- A file that is moved leaves one place and fills the other.  All that the path to the
    other place passes are directories. -/
theorem renameFile_changes {source : String} {place : List String} {content : ByteArray}
    (h : fs.renameFile source text = .ok fs')
    (hsource : fs.locate source = .ok (place, .file content)) (hne : fs.placeOf source ≠ []) :
    fs'.workingDirectory = fs.workingDirectory ∧
      (∀ place, fs.Above text place → fs'.root.occupant? place = some .directory) ∧
      ∀ place, fs'.root.occupant? place
        = if place = fs.placeOf text then some (.file content)
          else if place = fs.placeOf source then none
          else fs.root.occupant? place := by
  obtain ⟨place', content', target, name, hlocate, hslot, rfl⟩ := renameFile_eq_ok h
  obtain ⟨rfl, hnode⟩ := Prod.mk.inj (Except.ok.inj (hlocate.symm.trans hsource))
  obtain rfl := Node.file.inj hnode
  obtain ⟨hplace, hdirectory, -, hway⟩ := target_named hslot.found hslot.named
  have hfile : fs.root.occupant? place' = some (.file content') := by
    rw [occupant?_eq_file_iff]
    exact at?_of_locate hsource
  have hplain : ¬ fs.root.HasDirectory place' := by
    rw [← occupant?_eq_directory_iff, hfile]
    simp
  rw [← placeOf_of_locate hsource] at hne ⊢
  have htake := keepsDirectories_take hplain
  have hfree : ¬ (fs.take place').root.HasDirectory (target.place name) :=
    fun hinner => hslot.not_hasDirectory (hasDirectory_of_take hinner)
  refine ⟨rfl, fun other hother => ?_, fun other => ?_⟩
  · rw [occupant?_eq_directory_iff]
    exact keepsDirectories_put hfree _ other (htake other (hway other hother))
  · rw [← hplace, ← occupant?_take hne hfile]
    exact occupant?_put (htake _ hdirectory) hfree (occupant?_file_cons content') other

/-! ### Making directories -/

/-- Some places of an area that were empty hold directories now; nothing else has changed. -/
structure Grown (area : List String → Prop) (fs fs' : FileSystem) : Prop where
  workingDirectory : fs'.workingDirectory = fs.workingDirectory
  occupant : ∀ place, fs'.root.occupant? place = fs.root.occupant? place ∨
    fs.root.occupant? place = none ∧ area place ∧ fs'.root.occupant? place = some .directory

namespace Grown

variable {area area' : List String → Prop} {place : List String} {content : ByteArray}

theorem refl (fs : FileSystem) : Grown area fs fs := ⟨rfl, fun _ => Or.inl rfl⟩

theorem mono (h : Grown area fs fs') (harea : ∀ place, area place → area' place) :
    Grown area' fs fs' where
  workingDirectory := h.workingDirectory
  occupant place := (h.occupant place).imp_right fun ⟨hempty, hplace, hnew⟩ =>
    ⟨hempty, harea place hplace, hnew⟩

theorem trans {between : FileSystem} (h : Grown area fs between) (h' : Grown area between fs') :
    Grown area fs fs' where
  workingDirectory := h'.workingDirectory.trans h.workingDirectory
  occupant place := by
    rcases h.occupant place with hsame | ⟨hempty, hplace, hnew⟩
    · rw [← hsame]
      exact h'.occupant place
    · rcases h'.occupant place with hsame' | ⟨hempty', -, -⟩
      · exact Or.inr ⟨hempty, hplace, hsame'.trans hnew⟩
      · rw [hnew] at hempty'
        cases hempty'

theorem of_makeDirectory (h : fs.makeDirectory text = .ok fs') :
    Grown (· = fs.placeOf text) fs fs' := by
  obtain ⟨hdir, hempty, hplace⟩ := makeDirectory_eq_ok h
  refine ⟨hdir, fun place => ?_⟩
  rw [hplace]
  split
  · rename_i hself
    exact Or.inr ⟨hself ▸ hempty, hself, rfl⟩
  · exact Or.inl rfl

/-- Files stay as they are, and there are no new ones. -/
theorem file_iff (h : Grown area fs fs') :
    fs'.root.occupant? place = some (.file content)
      ↔ fs.root.occupant? place = some (.file content) := by
  rcases h.occupant place with hsame | ⟨hempty, -, hnew⟩
  · rw [hsame]
  · rw [hempty, hnew]
    simp

/-- What is there stays. -/
theorem occupant_of_some (h : Grown area fs fs') {occupant : Occupant}
    (hthere : fs.root.occupant? place = some occupant) :
    fs'.root.occupant? place = some occupant := by
  rcases h.occupant place with hsame | ⟨hempty, -, -⟩
  · exact hsame.trans hthere
  · rw [hempty] at hthere
    cases hthere

theorem occupant_of_outside (h : Grown area fs fs') (hout : ¬ area place) :
    fs'.root.occupant? place = fs.root.occupant? place :=
  (h.occupant place).resolve_right fun ⟨_, hplace, _⟩ => hout hplace

end Grown

/-- Making directories, whether all can be made or not, fills places of their paths only. -/
theorem grown_makeDirectories (texts : List String) (fs : FileSystem) :
    Grown (fun place => ∃ text ∈ texts, place = fs.placeOf text) fs
      (makeDirectories texts fs).2 := by
  have hself : ∀ text above {fs fs' : FileSystem}, fs.makeDirectory text = .ok fs' →
      Grown (fun place => ∃ t ∈ text :: above, place = fs.placeOf t) fs fs' :=
    fun _ _ _ _ h => (Grown.of_makeDirectory h).mono fun _ hplace => ⟨_, List.mem_cons_self, hplace⟩
  have habove : ∀ text above {fs fs' : FileSystem},
      Grown (fun place => ∃ t ∈ above, place = fs.placeOf t) fs fs' →
      Grown (fun place => ∃ t ∈ text :: above, place = fs.placeOf t) fs fs' :=
    fun _ _ _ _ h => h.mono fun _ ⟨t, ht, hplace⟩ => ⟨t, List.mem_cons_of_mem _ ht, hplace⟩
  fun_induction makeDirectories texts fs with
  | case1 fs => exact .refl fs
  | case2 text above fs fs' hmake => exact hself text above hmake
  | case3 text above fs hmissing cause between hrun ih =>
    rw [hrun] at ih
    exact habove text above ih
  | case4 text above fs hmissing done between hrun fs' hmake ih =>
    rw [hrun] at ih
    have hgrown := habove text above ih
    have hbelow := hself text above hmake
    simp only [placeOf_congr hgrown.workingDirectory] at hbelow
    exact hgrown.trans hbelow
  | case5 text above fs hmissing done between hrun cause hmake ih =>
    rw [hrun] at ih
    exact habove text above ih
  | case6 text above fs cause hmake => exact .refl fs

end FlowDocs.FileSystem
