/-
  FlowDocs/Proofs/Store/Establishing.lean
  =======================================
  **Establishing a store takes nothing away, and doing it again does nothing.**

  The directories of a store are provided one after the other.  Providing one only grows the
  tree, on the way to that directory, and no later directory of the store is on that way: so
  each is counted as made or as found by what was there at the beginning.
-/
import FlowDocs.Proofs.FileSystem.Atomicity
import FlowDocs.Proofs.FileSystem.Descent
import FlowDocs.Store

namespace FlowDocs

open PathName FileSystem

/-! ### Providing directories -/

namespace Disk

variable {fs fs' : FileSystem} {path : String}

theorem grown_provideDirectory (hup : ".." ∉ (ofText path).steps) (fs : FileSystem) :
    Grown (· <+: fs.placeOf path) fs ((provideDirectory path).run fs).2 := by
  rw [provideDirectory, run_get_bind]
  split
  · exact .refl fs
  · refine grown_bind ((grown_createDirectories .createDirectory path fs).mono ?_) fun _ => .refl _
    rintro place ⟨text, htext, rfl⟩
    exact prefix_of_mem_ancestors fs hup htext

/-- A directory that could be provided is there, and the answer says whether it was missing. -/
theorem provideDirectory_eq_ok {made : Bool} (hne : path ≠ "") (hup : ".." ∉ (ofText path).steps)
    (h : (provideDirectory path).run fs = (.ok made, fs')) :
    made = !fs.isDirectory path ∧ fs'.isDirectory path = true := by
  rw [provideDirectory, run_get_bind] at h
  split at h
  · rename_i hthere
    cases h
    exact ⟨by rw [hthere]; rfl, hthere⟩
  · rename_i hmissing
    obtain ⟨⟨⟩, between, hcreate, hpure⟩ := run_bind_eq_ok.mp h
    cases hpure
    refine ⟨by simpa using hmissing, ?_⟩
    obtain ⟨above, habove⟩ := ancestors_of_ne hne
    exact isDirectory_of_makeDirectories hup (habove ▸ createDirectories_eq_ok hcreate)

end Disk

namespace Store

variable {fs fs' : FileSystem}

theorem grown_provideAll {directories : List String}
    (hup : ∀ directory ∈ directories, ".." ∉ (ofText directory).steps) (done : Establishment)
    (fs : FileSystem) :
    Grown (fun place => ∃ directory ∈ directories, place <+: fs.placeOf directory) fs
      ((provideAll done directories).run fs).2 := by
  induction directories generalizing done fs with
  | nil => exact .refl fs
  | cons directory rest ih =>
    obtain ⟨hfirst, hrest⟩ := List.forall_mem_cons.mp hup
    have hgrown := Disk.grown_provideDirectory hfirst fs
    rw [provideAll]
    refine Disk.grown_bind (hgrown.mono ?_) fun made => ?_
    · exact fun place hplace => ⟨directory, List.mem_cons_self, hplace⟩
    · generalize ((Disk.provideDirectory directory).run fs).2 = between at hgrown ⊢
      have hmore : ∀ done, Grown (fun place => ∃ d ∈ directory :: rest, place <+: fs.placeOf d)
          between ((provideAll done rest).run between).2 := by
        intro done
        refine (ih hrest done between).mono ?_
        simp only [placeOf_congr hgrown.workingDirectory]
        exact fun place ⟨d, hd, hplace⟩ => ⟨d, List.mem_cons_of_mem _ hd, hplace⟩
      split
      · exact hmore _
      · exact hmore _

/-- **Providing several directories**, none of which is on the way to one before.  All are
    there afterwards, and each is counted as made or found by what was there before. -/
theorem provideAll_eq_ok {directories : List String} {done done' : Establishment}
    (hne : ∀ directory ∈ directories, directory ≠ "")
    (hup : ∀ directory ∈ directories, ".." ∉ (ofText directory).steps)
    (hapart : directories.Pairwise fun first later => ¬ fs.placeOf later <+: fs.placeOf first)
    (h : (provideAll done directories).run fs = (.ok done', fs')) :
    (∀ directory ∈ directories, fs'.isDirectory directory = true) ∧
      done' = { done with
        created := done.created ++ directories.filter fun directory => !fs.isDirectory directory
        existing := done.existing ++ directories.filter fun directory => fs.isDirectory directory } := by
  induction directories generalizing done fs with
  | nil =>
    cases h
    simp
  | cons directory rest ih =>
    obtain ⟨hnefirst, hnerest⟩ := List.forall_mem_cons.mp hne
    obtain ⟨hfirst, hrest⟩ := List.forall_mem_cons.mp hup
    obtain ⟨hlater, hapart⟩ := List.pairwise_cons.mp hapart
    rw [provideAll] at h
    obtain ⟨made, between, hprovide, hmore⟩ := Disk.run_bind_eq_ok.mp h
    have hgrown := Disk.grown_provideDirectory hfirst fs
    rw [hprovide] at hgrown
    obtain ⟨rfl, hthere⟩ := Disk.provideDirectory_eq_ok hnefirst hfirst hprovide
    have hsame : ∀ d ∈ rest, between.isDirectory d = fs.isDirectory d := fun d hd =>
      hgrown.isDirectory_of_outside (hrest d hd) (hlater d hd)
    have hcreated : rest.filter (fun d => !between.isDirectory d)
        = rest.filter fun d => !fs.isDirectory d :=
      List.filter_congr fun d hd => by rw [hsame d hd]
    have hexisting : rest.filter (fun d => between.isDirectory d)
        = rest.filter fun d => fs.isDirectory d := List.filter_congr hsame
    have hapart' : rest.Pairwise fun first later =>
        ¬ between.placeOf later <+: between.placeOf first := by
      simpa only [placeOf_congr hgrown.workingDirectory] using hapart
    have hmade : ∀ {done}, (provideAll done rest).run between = (.ok done', fs') →
        (∀ d ∈ directory :: rest, fs'.isDirectory d = true) ∧
          done' = { done with
            created := done.created ++ rest.filter fun d => !fs.isDirectory d
            existing := done.existing ++ rest.filter fun d => fs.isDirectory d } := by
      intro done hrun
      have hgrown' := grown_provideAll hrest done between
      rw [hrun] at hgrown'
      obtain ⟨hall, hdone⟩ := ih hnerest hrest hapart' hrun
      rw [hcreated, hexisting] at hdone
      exact ⟨List.forall_mem_cons.mpr ⟨hgrown'.isDirectory hfirst hthere, hall⟩, hdone⟩
    cases hwas : fs.isDirectory directory <;>
    · rw [hwas] at hmore
      obtain ⟨hall, rfl⟩ := hmade hmore
      exact ⟨hall, by simp [hwas]⟩

/-- Directories that are there do not have to be made. -/
theorem run_provideAll_of_isDirectory {directories : List String} (done : Establishment)
    (h : ∀ directory ∈ directories, fs.isDirectory directory = true) :
    (provideAll done directories).run fs
      = (.ok { done with existing := done.existing ++ directories }, fs) := by
  induction directories generalizing done with
  | nil =>
    rw [List.append_nil]
    rfl
  | cons directory rest ih =>
    obtain ⟨hfirst, hrest⟩ := List.forall_mem_cons.mp h
    have hprovide : (Disk.provideDirectory directory).run fs = (.ok false, fs) := by
      rw [Disk.provideDirectory, Disk.run_get_bind, if_pos hfirst]
      rfl
    rw [provideAll, Disk.run_bind, hprovide]
    change (provideAll _ rest).run fs = _
    rw [ih _ hrest, List.append_assoc]
    rfl

/-! ### The directories of a store -/

variable {store : Store} {now : String}

theorem isEntryName_of_mem_subdirectories {name : String} (h : name ∈ subdirectories) :
    IsEntryName name := by
  have hall : ∀ name ∈ subdirectories, IsEntryName name := by decide +kernel
  exact hall name h

theorem isEntryName_config : IsEntryName "config.json" := by decide +kernel

theorem mem_layout {directory : String} :
    directory ∈ store.layout ↔
      directory = store.directory ∨ ∃ name ∈ subdirectories, directory = join store.directory name := by
  simp only [layout, inside, List.mem_cons, List.mem_map, eq_comm]

theorem ne_empty_of_mem_layout (hne : store.directory ≠ "") {directory : String}
    (h : directory ∈ store.layout) : directory ≠ "" := by
  rcases mem_layout.mp h with rfl | ⟨name, hname, rfl⟩
  · exact hne
  · exact join_ne_empty _ (isEntryName_of_mem_subdirectories hname)

theorem not_up_of_mem_layout (hup : ".." ∉ (ofText store.directory).steps) {directory : String}
    (h : directory ∈ store.layout) : ".." ∉ (ofText directory).steps := by
  rcases mem_layout.mp h with rfl | ⟨name, hname, rfl⟩
  · exact hup
  · have hentry := isEntryName_of_mem_subdirectories hname
    rw [steps_join _ hentry, List.mem_append, List.mem_singleton]
    exact not_or.mpr ⟨hup, Ne.symm hentry.ne_up⟩

/-- An entry of a store is not on the way to the store or to another of its entries. -/
theorem not_prefix_of_entry {name directory : String} (fs : FileSystem) (hname : IsEntryName name)
    (h : directory = store.directory ∨
      ∃ other, IsEntryName other ∧ other ≠ name ∧ directory = join store.directory other) :
    ¬ fs.placeOf (join store.directory name) <+: fs.placeOf directory := by
  rw [placeOf_join fs _ hname]
  intro hfront
  rcases h with rfl | ⟨other, hother, hne, rfl⟩
  · have hlength := hfront.length_le
    rw [List.length_append, List.length_singleton] at hlength
    omega
  · rw [placeOf_join fs _ hother] at hfront
    have hsame := hfront.eq_of_length (by simp)
    exact hne (List.singleton_inj.mp (List.append_cancel_left hsame)).symm

theorem layout_apart (store : Store) (fs : FileSystem) :
    store.layout.Pairwise fun first later => ¬ fs.placeOf later <+: fs.placeOf first := by
  have hdistinct : subdirectories.Pairwise (· ≠ ·) := by decide
  rw [layout, List.pairwise_cons, List.pairwise_map]
  refine ⟨?_, hdistinct.imp_of_mem ?_⟩
  · intro later hlater
    obtain ⟨name, hname, rfl⟩ := List.mem_map.mp hlater
    exact not_prefix_of_entry fs (isEntryName_of_mem_subdirectories hname) (Or.inl rfl)
  · intro first later hfirst hlater hne
    exact not_prefix_of_entry fs (isEntryName_of_mem_subdirectories hlater)
      (Or.inr ⟨first, isEntryName_of_mem_subdirectories hfirst, hne, rfl⟩)

theorem layout_nodup (store : Store) : store.layout.Nodup := by
  refine (layout_apart store ⟨.directory [], []⟩).imp ?_
  rintro first later hapart rfl
  exact hapart List.prefix_rfl

theorem settingsFile_apart (fs : FileSystem) {directory : String} (h : directory ∈ store.layout) :
    ¬ fs.placeOf store.settingsFile <+: fs.placeOf directory := by
  apply not_prefix_of_entry fs isEntryName_config
  refine (mem_layout.mp h).imp_right ?_
  rintro ⟨name, hname, rfl⟩
  refine ⟨name, isEntryName_of_mem_subdirectories hname, ?_, rfl⟩
  rintro rfl
  exact absurd hname (by decide)

/-! ### The settings -/

theorem establish_eq_ok {done : Establishment}
    (h : (store.establish now).run fs = (.ok done, fs')) :
    ∃ provided between, (provideAll {} store.layout).run fs = (.ok provided, between) ∧
      (between.isThere store.settingsFile = true ∧ done = provided ∧ fs' = between ∨
        between.isThere store.settingsFile = false ∧
          (Disk.writeValue store.settingsFile (defaultConfig now)).run between = (.ok (), fs') ∧
          done = { provided with config := some store.settingsFile }) := by
  obtain ⟨provided, between, hprovide, hrest⟩ := Disk.run_bind_eq_ok.mp h
  refine ⟨provided, between, hprovide, ?_⟩
  rw [Disk.run_get_bind] at hrest
  split at hrest
  · rename_i hthere
    cases hrest
    exact Or.inl ⟨hthere, rfl, rfl⟩
  · rename_i hmissing
    obtain ⟨⟨⟩, after, hwrite, hpure⟩ := Disk.run_bind_eq_ok.mp hrest
    cases hpure
    exact Or.inr ⟨by simpa using hmissing, hwrite, rfl⟩

theorem establish_eq_error {failure : Failure}
    (h : (store.establish now).run fs = (.error failure, fs')) :
    (provideAll {} store.layout).run fs = (.error failure, fs') ∨
      ∃ provided between, (provideAll {} store.layout).run fs = (.ok provided, between) ∧
        (Disk.writeValue store.settingsFile (defaultConfig now)).run between
          = (.error failure, fs') := by
  rcases Disk.run_bind_eq_error.mp h with hprovide | ⟨provided, between, hprovide, hrest⟩
  · exact Or.inl hprovide
  · rw [Disk.run_get_bind] at hrest
    split at hrest
    · cases hrest
    · rcases Disk.run_bind_eq_error.mp hrest with hwrite | ⟨⟨⟩, after, -, hpure⟩
      · exact Or.inr ⟨provided, between, hprovide, hwrite⟩
      · cases hpure

/-- The settings file is there if something stands at its place and its path is accepted. -/
theorem isThere_settingsFile_iff (hup : ".." ∉ (ofText store.directory).steps) :
    fs.isThere store.settingsFile = true ↔ Accepted store.settingsFile ∧
      ∃ occupant, fs.root.occupant? (fs.placeOf store.settingsFile) = some occupant := by
  rw [settingsFile, inside, placeOf_join fs _ isEntryName_config]
  exact isThere_join_iff hup isEntryName_config

/-- Providing the directories of a store does not touch its settings. -/
theorem isThere_settingsFile_of_grown (hup : ".." ∉ (ofText store.directory).steps)
    (hgrown : Grown (fun place => ∃ d ∈ store.layout, place <+: fs.placeOf d) fs fs') :
    fs'.isThere store.settingsFile = fs.isThere store.settingsFile := by
  have hout : ¬ ∃ d ∈ store.layout, fs.placeOf store.settingsFile <+: fs.placeOf d :=
    fun ⟨d, hd, hfront⟩ => settingsFile_apart fs hd hfront
  rw [Bool.eq_iff_iff, isThere_settingsFile_iff hup, isThere_settingsFile_iff hup,
    placeOf_congr hgrown.workingDirectory, hgrown.occupant_of_outside hout]

/-- Settings are written only where nothing is. -/
theorem occupant_of_write_settings {value : Json} (hup : ".." ∉ (ofText store.directory).steps)
    (hnew : Disk.NoLeftover fs store.settingsFile)
    (hmissing : fs.isThere store.settingsFile = false)
    (h : (Disk.writeValue store.settingsFile value).run fs = (.ok (), fs')) {place : List String}
    {occupant : Occupant} (hthere : fs.root.occupant? place = some occupant) :
    fs'.root.occupant? place = some occupant := by
  obtain ⟨hdir, -, -, -, hrest⟩ := Disk.writeWhole_changes hnew h
  have hplace : place ≠ fs.placeOf store.settingsFile := by
    rintro rfl
    -- the path is accepted, for it can be read afterwards
    have haccepted := ((isThere_settingsFile_iff hup).mp
      (isThere_of_readBytes (Disk.readBytes_of_writeWhole h))).1
    exact Bool.false_ne_true
      (hmissing.symm.trans ((isThere_settingsFile_iff hup).mpr ⟨haccepted, occupant, hthere⟩))
  rcases hrest place hplace with hsame | ⟨hempty, -, -⟩
  · exact hsame.trans hthere
  · rw [hempty] at hthere
    cases hthere

/-! ### Establishing -/

/-- Nothing is taken away or changed, whether the store could be established or not. -/
theorem occupant_of_establish {result : Except Failure Establishment}
    (hup : ".." ∉ (ofText store.directory).steps)
    (hnew : Disk.NoLeftover fs store.settingsFile)
    (h : (store.establish now).run fs = (result, fs')) {place : List String}
    {occupant : Occupant} (hthere : fs.root.occupant? place = some occupant) :
    fs'.root.occupant? place = some occupant := by
  have hgrown := grown_provideAll (fun d hd => not_up_of_mem_layout hup hd) {} fs
  cases result with
  | error failure =>
    rcases establish_eq_error h with hprovide | ⟨provided, between, hprovide, hwrite⟩
    · rw [hprovide] at hgrown
      exact hgrown.occupant_of_some hthere
    · rw [hprovide] at hgrown
      exact (Disk.grown_of_writeWhole (hnew.of_grown hgrown) hwrite).occupant_of_some
        (hgrown.occupant_of_some hthere)
  | ok done =>
    obtain ⟨provided, between, hprovide, ⟨-, -, rfl⟩ | ⟨hmissing, hwrite, -⟩⟩ := establish_eq_ok h
    · rw [hprovide] at hgrown
      exact hgrown.occupant_of_some hthere
    · rw [hprovide] at hgrown
      exact occupant_of_write_settings hup (hnew.of_grown hgrown) hmissing hwrite
        (hgrown.occupant_of_some hthere)

/-- A store that could be established is complete, and the record says what was missing. -/
theorem complete_of_establish {done : Establishment} (hne : store.directory ≠ "")
    (hup : ".." ∉ (ofText store.directory).steps)
    (hnew : Disk.NoLeftover fs store.settingsFile)
    (h : (store.establish now).run fs = (.ok done, fs')) :
    fs'.workingDirectory = fs.workingDirectory ∧
      (∀ directory ∈ store.layout, fs'.isDirectory directory = true) ∧
      fs'.isThere store.settingsFile = true ∧
      done = {
        created := store.layout.filter fun directory => !fs.isDirectory directory
        existing := store.layout.filter fun directory => fs.isDirectory directory
        config := if fs.isThere store.settingsFile then none else some store.settingsFile } := by
  have hup' : ∀ d ∈ store.layout, ".." ∉ (ofText d).steps := fun d hd => not_up_of_mem_layout hup hd
  obtain ⟨provided, between, hprovide, hcases⟩ := establish_eq_ok h
  have hgrown := grown_provideAll hup' {} fs
  rw [hprovide] at hgrown
  obtain ⟨hall, rfl⟩ := provideAll_eq_ok (fun d hd => ne_empty_of_mem_layout hne hd) hup'
    (layout_apart store fs) hprovide
  have hsettings := isThere_settingsFile_of_grown hup hgrown
  rcases hcases with ⟨hthere, rfl, rfl⟩ | ⟨hmissing, hwrite, rfl⟩
  · refine ⟨hgrown.workingDirectory, hall, hthere, ?_⟩
    rw [if_pos (hsettings.symm.trans hthere)]
    rfl
  · have hnew' := hnew.of_grown hgrown
    obtain ⟨hdir, -⟩ := Disk.writeWhole_changes hnew' hwrite
    refine ⟨hdir.trans hgrown.workingDirectory, fun d hd => ?_,
      isThere_of_readBytes (Disk.readBytes_of_writeWhole hwrite), ?_⟩
    · exact isDirectory_of_kept (hup' d hd) hdir
        (fun hthere => occupant_of_write_settings hup hnew' hmissing hwrite hthere) (hall d hd)
    · rw [if_neg (by simpa using hsettings.symm.trans hmissing)]
      rfl

/-- A complete store is left as it is. -/
theorem run_establish_of_complete (hall : ∀ directory ∈ store.layout, fs.isDirectory directory = true)
    (hsettings : fs.isThere store.settingsFile = true) (now : String) :
    (store.establish now).run fs = (.ok { existing := store.layout }, fs) := by
  rw [establish, Disk.run_bind, run_provideAll_of_isDirectory {} hall]
  change (get >>= _ : Disk Establishment).run fs = _
  rw [Disk.run_get_bind, if_pos hsettings]
  rfl

/-- **Establishing a store takes nothing away and is done once.**  Take any tree and a store
    whose directory is named by a path that is not empty and has no `..`, and let no file stand
    where the temporary file of the settings will be.  Whatever the outcome, what was there is
    there still, every file with its bytes.  If it succeeds, the directories and the settings
    of the store are there, and the record tells those that were missing from those that were
    not: each directory is in one of its two lists.  After that, establishing the store again
    finds everything and changes nothing. -/
theorem establish_keeps_and_settles {result : Except Failure Establishment}
    (hne : store.directory ≠ "") (hup : ".." ∉ (ofText store.directory).steps)
    (hnew : Disk.NoLeftover fs store.settingsFile)
    (h : (store.establish now).run fs = (result, fs')) :
    (∀ place occupant, fs.root.occupant? place = some occupant →
      fs'.root.occupant? place = some occupant) ∧
    ∀ done, result = .ok done →
      (∀ directory ∈ store.layout, fs'.isDirectory directory = true) ∧
      fs'.isThere store.settingsFile = true ∧
      store.layout.Nodup ∧
      done.created = (store.layout.filter fun directory => !fs.isThere directory) ∧
      done.existing = (store.layout.filter fun directory => fs.isThere directory) ∧
      done.config = (if fs.isThere store.settingsFile then none else some store.settingsFile) ∧
      ∀ later, (store.establish later).run fs'
        = (.ok { created := [], existing := store.layout, config := none }, fs') := by
  have hkeep : ∀ place occupant, fs.root.occupant? place = some occupant →
      fs'.root.occupant? place = some occupant :=
    fun place occupant hthere => occupant_of_establish hup hnew h hthere
  refine ⟨hkeep, ?_⟩
  rintro done rfl
  obtain ⟨hdir, hall, hsettings, rfl⟩ := complete_of_establish hne hup hnew h
  have hsame : ∀ d ∈ store.layout, fs.isDirectory d = fs.isThere d := fun d hd =>
    isDirectory_eq_isThere (not_up_of_mem_layout hup hd) hdir (hkeep _ _) (hall d hd)
  refine ⟨hall, hsettings, layout_nodup store, ?_, ?_, rfl, run_establish_of_complete hall hsettings⟩
  · exact List.filter_congr fun d hd => by rw [hsame d hd]
  · exact List.filter_congr hsame

/-- A directory with a store that was begun: it has one of its directories. -/
def begun : FileSystem := ⟨.directory [("s", .directory [("cache", .directory [])])], []⟩

theorem establish_keeps_and_settles_begun :
    Disk.NoLeftover begun (settingsFile ⟨"s"⟩) ∧
      ∃ done fs', (establish "noon" ⟨"s"⟩).run begun = (.ok done, fs') ∧
        done.created = ["s/connections", "s/workflows", "s/snapshots", "s/history", "s/plugins"] ∧
        done.existing = ["s", "s/cache"] ∧ done.config = some "s/config.json" ∧
        (establish "dusk" ⟨"s"⟩).run fs' = (.ok { existing := layout ⟨"s"⟩ }, fs') := by
  have hname : fileName? (settingsFile ⟨"s"⟩) = some "config.json" := by decide +kernel
  have hnew : Disk.NoLeftover begun (settingsFile ⟨"s"⟩) := by
    intro name h bytes hfile
    obtain rfl := Option.some.inj (hname.symm.trans h)
    cases hfile
  have hdone : ((establish "noon" ⟨"s"⟩).run begun).1.toOption = some
      { created := ["s/connections", "s/workflows", "s/snapshots", "s/history", "s/plugins"]
        existing := ["s", "s/cache"]
        config := some "s/config.json" } := by decide +kernel
  rcases hrun : (establish "noon" ⟨"s"⟩).run begun with ⟨failure | done, fs'⟩
  · rw [hrun] at hdone
    cases hdone
  · rw [hrun] at hdone
    obtain rfl := Option.some.inj hdone
    obtain ⟨-, -, -, -, -, -, hagain⟩ :=
      (establish_keeps_and_settles (by decide) (by decide +kernel) hnew hrun).2 _ rfl
    exact ⟨hnew, _, fs', rfl, rfl, rfl, rfl, hagain "dusk"⟩

end Store
end FlowDocs
