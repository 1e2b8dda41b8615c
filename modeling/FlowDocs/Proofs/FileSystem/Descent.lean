/-
  FlowDocs/Proofs/FileSystem/Descent.lean
  =======================================
  **Paths that never go up.**

  A path without `..` passes only places above the one it leads to.  Whether it leads to a
  directory is then decided by its text, which must be `Accepted`, and by what stands at its
  place; the tree on the way does not have to be looked at.
-/
import FlowDocs.Proofs.FileSystem.Effects

namespace FlowDocs

theorem Node.HasDirectory.of_below {root : Node} {place below : List String}
    (h : root.HasDirectory below) (hfront : place <+: below) : root.HasDirectory place := by
  obtain ⟨back, rfl⟩ := hfront
  obtain ⟨entries, hentries⟩ := h
  rw [at?_append] at hentries
  obtain ⟨node, hnode, hbelow⟩ := Option.bind_eq_some_iff.mp hentries
  cases node with
  | directory inner => exact ⟨inner, hnode⟩
  | file content => exact absurd ⟨entries, hbelow⟩ (not_hasDirectory_file content back)

/-- What stands in a directory stands below a directory. -/
theorem Node.hasDirectory_of_occupant {root : Node} {place : List String} {name : String}
    {occupant : Occupant} (h : root.occupant? (place ++ [name]) = some occupant) :
    root.HasDirectory place := by
  by_contra hnot
  rw [occupant?_eq_none_of_below hnot] at h
  cases h

namespace PathName

theorem getLast?_segments_join {name : String} (base : String) (hname : IsEntryName name) :
    (ofText (join base name)).segments.getLast? = some name := by
  have hlast : (parts (join base name)).getLast? = some name := by
    by_cases hbase : base = ""
    · have hjoin : join "" name = name := by
        rw [join, hname.not_startsAtRoot]
        simp
      rw [hbase, hjoin, parts_of_not_mem hname.slashless]
      rfl
    · obtain ⟨front, hparts, -, -⟩ := parts_join hbase hname
      rw [hparts, List.getLast?_concat]
  rcases ofText_cases (join base name) with ⟨first, rest, hparts, hread⟩ | ⟨rest, hparts, hread⟩ |
    ⟨-, -, hread⟩
  · rw [hread]
    rwa [hparts, List.getLast?_cons_cons] at hlast
  · rw [hread]
    cases rest with
    | nil =>
      rw [hparts] at hlast
      exact absurd (Option.some.inj hlast).symm hname.ne_here
    | cons next rest => rwa [hparts, List.getLast?_cons_cons] at hlast
  · rwa [hread]

theorem wantsDirectory_join {name : String} (base : String) (hname : IsEntryName name) :
    (ofText (join base name)).wantsDirectory = false := by
  rw [wantsDirectory, getLast?_segments_join base hname]
  simpa using hname.ne_empty

end PathName

namespace FileSystem

open Node PathName

variable {fs fs' : FileSystem} {text : String}

/-! ### Walking down -/

/-- The path is not refused for its text. -/
def Accepted (text : String) : Prop :=
  checked text = .ok (ofText text) ∧
    ∀ step ∈ (ofText text).steps, ¬ maxName < step.utf8ByteSize

theorem prefix_advance {step : String} (hup : step ≠ "..") (place : List String) :
    place <+: advance place step := by
  rw [advance, if_neg hup]
  split
  · exact List.prefix_rfl
  · exact List.prefix_append place [step]

/-- Without `..` all places on the way are above the last. -/
theorem prefix_foldl_advance {steps : List String} (hup : ".." ∉ steps) (place : List String) :
    place <+: steps.foldl advance place := by
  induction steps generalizing place with
  | nil => exact List.prefix_rfl
  | cons step rest ih =>
    obtain ⟨hstep, hrest⟩ := not_or.mp (mt List.mem_cons.mpr hup)
    exact (prefix_advance (Ne.symm hstep) place).trans (ih hrest _)

theorem enter_of_hasDirectory {root : Node} {place : List String} {step : String}
    (hup : step ≠ "..") (hshort : ¬ maxName < step.utf8ByteSize)
    (hnext : root.HasDirectory (advance place step)) :
    enter root place step = .ok (advance place step) := by
  have hplace := hnext.of_below (prefix_advance hup place)
  rw [advance, if_neg hup] at hnext ⊢
  by_cases hdot : step = "."
  · obtain ⟨entries, hentries⟩ := hplace
    rw [if_pos hdot, enter, hentries]
    exact if_pos hdot
  · rw [if_neg hdot] at hnext ⊢
    obtain ⟨entries, hentries⟩ := hnext
    exact enter_name hplace ⟨hdot, hup⟩ hshort (by rw [hentries]; rfl)

/-- A walk down that ends at a directory can be taken. -/
theorem follow_of_hasDirectory {root : Node} {place : List String} {steps : List String}
    (hup : ".." ∉ steps) (hshort : ∀ step ∈ steps, ¬ maxName < step.utf8ByteSize)
    (hgoal : root.HasDirectory (steps.foldl advance place)) :
    follow root place steps = .ok (steps.foldl advance place) := by
  induction steps generalizing place with
  | nil =>
    rw [follow]
    rfl
  | cons step rest ih =>
    obtain ⟨hstep, hrest⟩ := not_or.mp (mt List.mem_cons.mpr hup)
    obtain ⟨hlong, hlongs⟩ := List.forall_mem_cons.mp hshort
    have hnext := hgoal.of_below (prefix_foldl_advance hrest _)
    rw [follow, enter_of_hasDirectory (Ne.symm hstep) hlong hnext]
    exact ih hrest hlongs hgoal

/-- A walk that can be taken has no long names. -/
theorem short_of_follow {root : Node} {place goal : List String} {steps : List String}
    (h : follow root place steps = .ok goal) : ∀ step ∈ steps, ¬ maxName < step.utf8ByteSize := by
  induction steps generalizing place with
  | nil => exact fun step hstep => absurd hstep List.not_mem_nil
  | cons step rest ih =>
    rw [follow] at h
    split at h
    · cases h
    · rename_i next henter
      refine List.forall_mem_cons.mpr ⟨?_, ih h⟩
      obtain ⟨-, ⟨rfl, -⟩ | ⟨-, rfl, -⟩ | ⟨-, hshort, -⟩⟩ := enter_eq_ok henter
      · decide
      · decide
      · exact hshort

/-! ### What is at the end -/

/-- What it takes to find something. -/
theorem locate_eq_ok {place : List String} {node : Node} (h : fs.locate text = .ok (place, node)) :
    Accepted text ∧ fs.root.at? (fs.placeOf text) = some node := by
  obtain ⟨hchecked, hfollow⟩ := follow_of_locate h
  exact ⟨⟨hchecked, short_of_follow hfollow⟩, placeOf_of_locate h ▸ at?_of_locate h⟩

theorem locate_of_follow {node : Node} (haccepted : Accepted text)
    (hfollow : follow fs.root (fs.start (ofText text)) (ofText text).steps = .ok (fs.placeOf text))
    (hnode : fs.root.at? (fs.placeOf text) = some node)
    (hwants : (ofText text).wantsDirectory = true → node.isDirectory = true) :
    fs.locate text = .ok (fs.placeOf text, node) := by
  rw [locate, haccepted.1]
  simp only [hfollow, hnode]
  rw [if_neg]
  intro h
  simp only [Bool.and_eq_true, Bool.not_eq_true'] at h
  exact Bool.false_ne_true (h.2.symm.trans (hwants h.1))

theorem isThere_of_readBytes {content : ByteArray} (h : fs.readBytes text = .ok content) :
    fs.isThere text = true := by
  rw [readBytes] at h
  rw [isThere]
  cases hlocate : fs.locate text with
  | error cause =>
    rw [hlocate] at h
    cases h
  | ok found => rfl

theorem isThere_of_readText {content : String} (h : fs.readText text = .ok content) :
    fs.isThere text = true := by
  rw [readText] at h
  split at h
  · cases h
  · rename_i bytes hbytes
    exact isThere_of_readBytes hbytes

theorem isDirectory_iff_locate :
    fs.isDirectory text = true ↔ ∃ place entries, fs.locate text = .ok (place, .directory entries) := by
  rw [isDirectory]
  split
  · rename_i place entries h
    exact iff_of_true rfl ⟨place, entries, h⟩
  · rename_i hnot
    exact iff_of_false Bool.false_ne_true fun ⟨place, entries, h⟩ => hnot place entries h

/-- **Where a path without `..` leads to a directory.** -/
theorem isDirectory_iff (hup : ".." ∉ (ofText text).steps) :
    fs.isDirectory text = true ↔ Accepted text ∧ fs.root.HasDirectory (fs.placeOf text) := by
  rw [isDirectory_iff_locate]
  constructor
  · rintro ⟨place, entries, hlocate⟩
    obtain ⟨haccepted, hnode⟩ := locate_eq_ok hlocate
    exact ⟨haccepted, entries, hnode⟩
  · rintro ⟨haccepted, entries, hnode⟩
    have hfollow := follow_of_hasDirectory hup haccepted.2 ⟨entries, hnode⟩
    exact ⟨_, entries, locate_of_follow haccepted hfollow hnode fun _ => rfl⟩

/-- Directories stay if what stands at their place does. -/
theorem isDirectory_of_kept (hup : ".." ∉ (ofText text).steps)
    (hdir : fs'.workingDirectory = fs.workingDirectory)
    (hkeep : fs.root.occupant? (fs.placeOf text) = some .directory →
      fs'.root.occupant? (fs.placeOf text) = some .directory)
    (h : fs.isDirectory text = true) : fs'.isDirectory text = true := by
  rw [isDirectory_iff hup, ← occupant?_eq_directory_iff] at h ⊢
  rw [placeOf_congr hdir]
  exact ⟨h.1, hkeep h.2⟩

/-- Where there is a directory in the end, nothing else can have been before, if it was to
    stay. -/
theorem isDirectory_eq_isThere (hup : ".." ∉ (ofText text).steps)
    (hdir : fs'.workingDirectory = fs.workingDirectory)
    (hkeep : ∀ {occupant}, fs.root.occupant? (fs.placeOf text) = some occupant →
      fs'.root.occupant? (fs.placeOf text) = some occupant)
    (h : fs'.isDirectory text = true) : fs.isDirectory text = fs.isThere text := by
  rw [isDirectory_iff hup, ← occupant?_eq_directory_iff, placeOf_congr hdir] at h
  rw [isDirectory, isThere]
  cases hlocate : fs.locate text with
  | error cause => rfl
  | ok found =>
    obtain ⟨place, content | entries⟩ := found
    · have hfile := hkeep (occupant?_of_locate hlocate)
      rw [h.2] at hfile
      cases hfile
    · rfl

/-- **Where a name below a path leads to something.** -/
theorem isThere_join_iff {base name : String} (hup : ".." ∉ (ofText base).steps)
    (hname : IsEntryName name) :
    fs.isThere (join base name) = true ↔
      Accepted (join base name) ∧ ∃ occupant,
        fs.root.occupant? (fs.placeOf base ++ [name]) = some occupant := by
  have hplace := placeOf_join fs base hname
  rw [isThere, ← hplace]
  constructor
  · intro h
    cases hlocate : fs.locate (join base name) with
    | error cause =>
      rw [hlocate] at h
      cases h
    | ok found =>
      obtain ⟨place, node⟩ := found
      exact ⟨(locate_eq_ok hlocate).1, _, occupant?_of_locate hlocate⟩
  · rintro ⟨haccepted, occupant, hoccupant⟩
    have hdirectory := hasDirectory_of_occupant (hplace ▸ hoccupant)
    obtain ⟨node, hnode, -⟩ := Option.map_eq_some_iff.mp hoccupant
    have hshort := haccepted.2
    rw [steps_join base hname] at hshort
    have hfollow : follow fs.root (fs.start (ofText (join base name)))
        (ofText (join base name)).steps = .ok (fs.placeOf (join base name)) := by
      have hbase := follow_of_hasDirectory hup
        (fun step hstep => hshort step (List.mem_append_left [name] hstep)) hdirectory
      rw [steps_join base hname, start_congr rfl (isAbsolute_join base hname),
        follow_append hbase, follow, hplace, ← placeOf,
        enter_name hdirectory ⟨hname.ne_here, hname.ne_up⟩ (hshort name (by simp))
          (by rw [← hplace, hnode]; rfl)]
      rfl
    have hwants : (ofText (join base name)).wantsDirectory = true → node.isDirectory = true := by
      rw [wantsDirectory_join base hname]
      exact fun h => absurd h Bool.false_ne_true
    rw [locate_of_follow haccepted hfollow hnode hwants]
    rfl

/-! ### Making directories on the way -/

theorem Grown.isDirectory {area : List String → Prop} (h : Grown area fs fs')
    (hup : ".." ∉ (ofText text).steps) (hthere : fs.isDirectory text = true) :
    fs'.isDirectory text = true :=
  isDirectory_of_kept hup h.workingDirectory h.occupant_of_some hthere

theorem Grown.isDirectory_of_outside {area : List String → Prop} (h : Grown area fs fs')
    (hup : ".." ∉ (ofText text).steps) (hout : ¬ area (fs.placeOf text)) :
    fs'.isDirectory text = fs.isDirectory text := by
  rw [Bool.eq_iff_iff, isDirectory_iff hup, isDirectory_iff hup, placeOf_congr h.workingDirectory,
    ← occupant?_eq_directory_iff, ← occupant?_eq_directory_iff, h.occupant_of_outside hout]

theorem prefix_of_mem_ancestors {above : String} (fs : FileSystem)
    (hup : ".." ∉ (ofText text).steps) (h : above ∈ ancestors text) :
    fs.placeOf above <+: fs.placeOf text := by
  obtain ⟨habs, back, hsteps⟩ := steps_of_mem_ancestors h
  have hback : ".." ∉ back := fun hmem => hup (hsteps ▸ List.mem_append_right _ hmem)
  rw [placeOf, placeOf, ← hsteps, List.foldl_append, start_congr rfl habs]
  exact prefix_foldl_advance hback _

theorem isDirectory_of_makeDirectory (hup : ".." ∉ (ofText text).steps)
    (h : fs.makeDirectory text = .ok fs') : fs'.isDirectory text = true := by
  obtain ⟨hdir, -, hplace⟩ := makeDirectory_eq_ok h
  rw [isDirectory_iff hup, placeOf_congr hdir, ← occupant?_eq_directory_iff, hplace, if_pos rfl]
  refine ⟨?_, rfl⟩
  unfold makeDirectory at h
  split at h
  · cases h
  · rename_i target htarget
    obtain ⟨path, hpath, hfollow, -, hlast, -⟩ := target_eq_ok htarget
    obtain rfl := checked_eq_ok hpath
    split at h
    · cases h
    · rename_i name hname
      split_ifs at h with hlong
      refine ⟨hpath, ?_⟩
      obtain ⟨hlast, -⟩ := Option.filter_eq_some_iff.mp (hlast.symm.trans hname)
      obtain ⟨front, hsteps⟩ := List.getLast?_eq_some_iff.mp hlast
      rw [hsteps, List.dropLast_concat] at hfollow
      rw [hsteps, List.forall_mem_append]
      exact ⟨short_of_follow hfollow, by simpa using hlong⟩

/-- If all directories can be made, the first is there. -/
theorem isDirectory_of_makeDirectories {above : List String} (hup : ".." ∉ (ofText text).steps)
    (h : makeDirectories (text :: above) fs = (.ok (), fs')) : fs'.isDirectory text = true := by
  have hwill : ∀ {cause between}, ((if isDirectory between text then Except.ok () else
      Except.error cause, between) : Except OsError Unit × FileSystem) = (.ok (), fs') →
      fs'.isDirectory text = true := by
    intro cause between hwill
    split_ifs at hwill with hthere
    · cases hwill
      exact hthere
    · cases hwill
  rw [makeDirectories] at h
  split at h
  · rename_i made hmake
    cases h
    exact isDirectory_of_makeDirectory hup hmake
  · split at h
    · cases h
    · split at h
      · rename_i made hmake
        cases h
        exact isDirectory_of_makeDirectory hup hmake
      · exact hwill h
  · exact hwill h

end FileSystem
end FlowDocs
