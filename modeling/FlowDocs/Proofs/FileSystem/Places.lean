/-
  FlowDocs/Proofs/FileSystem/Places.lean
  ======================================
  **The place a path leads to.**

  Without links a path can lead to one place only, which its text and the working directory
  decide: `placeOf` follows the steps as if every directory on the way were there.
  `occupant?` is what stands at a place.  The changes of a file system are changes of the
  occupant of a single place.
-/
import FlowDocs.Proofs.FileSystem.Files
import FlowDocs.Proofs.FileSystem.Paths

namespace FlowDocs

/-! ### Occupants -/

/-- What can stand at a place. -/
inductive Occupant where
  | directory
  | file (content : ByteArray)

namespace Node

def occupant : Node → Occupant
  | .directory _ => .directory
  | .file content => .file content

/-- What stands at a place below a node, if anything does. -/
def occupant? (root : Node) (place : List String) : Option Occupant :=
  (root.at? place).map occupant

variable {root : Node} {place : List String}

theorem occupant?_eq_directory_iff :
    root.occupant? place = some .directory ↔ root.HasDirectory place := by
  rw [occupant?, HasDirectory]
  cases root.at? place with
  | none => simp
  | some node => cases node <;> simp [occupant]

theorem occupant?_eq_file_iff {content : ByteArray} :
    root.occupant? place = some (.file content) ↔ root.at? place = some (.file content) := by
  rw [occupant?]
  cases root.at? place with
  | none => simp
  | some node => cases node <;> simp [occupant]

theorem occupant?_eq_none_iff : root.occupant? place = none ↔ root.at? place = none :=
  Option.map_eq_none_iff

theorem occupant?_nil (entries : List (String × Node)) :
    (Node.directory entries).occupant? [] = some .directory := by
  rw [occupant?, at?]
  rfl

theorem occupant?_cons (entries : List (String × Node)) (name : String) (rest : List String) :
    (Node.directory entries).occupant? (name :: rest)
      = (Fields.get? entries name).bind fun below => below.occupant? rest := by
  rw [occupant?, at?, Option.map_bind]
  rfl

theorem occupant?_file_cons (content : ByteArray) (name : String) (rest : List String) :
    (Node.file content).occupant? (name :: rest) = none := by
  rw [occupant?, at?]
  rfl

/-- Nothing stands below a place without a directory. -/
theorem occupant?_eq_none_of_below (h : ¬ root.HasDirectory place) (name : String)
    (rest : List String) : root.occupant? (place ++ name :: rest) = none := by
  rw [occupant?, at?_append]
  cases hnode : root.at? place with
  | none => rfl
  | some node =>
    cases node with
    | directory entries => exact absurd ⟨entries, hnode⟩ h
    | file content => exact occupant?_file_cons content name rest

/-- **Putting a file or an empty directory** where there is no directory changes what stands
    there and nothing else. -/
theorem occupant?_put {new : Node} {name : String} (hplace : root.HasDirectory place)
    (hfree : ¬ root.HasDirectory (place ++ [name]))
    (hnew : ∀ step rest, new.occupant? (step :: rest) = none) (other : List String) :
    (put new (place ++ [name]) root).occupant? other
      = if other = place ++ [name] then some new.occupant else root.occupant? other := by
  induction place generalizing root other with
  | nil =>
    obtain ⟨entries, hroot⟩ := hplace
    obtain rfl : root = .directory entries := Option.some.inj hroot
    rw [List.nil_append, put, put]
    cases other with
    | nil => rw [occupant?_nil, occupant?_nil, if_neg (List.cons_ne_nil _ _).symm]
    | cons step rest =>
      rw [occupant?_cons, Fields.get?_set]
      by_cases hstep : step = name
      · subst hstep
        rw [if_pos rfl, Option.bind_some]
        cases rest with
        | nil =>
          rw [if_pos rfl, occupant?]
          rfl
        | cons next rest =>
          rw [hnew, if_neg (by simp)]
          exact (occupant?_eq_none_of_below hfree next rest).symm
      · rw [if_neg hstep, if_neg (by simp [hstep]), occupant?_cons]
  | cons outer place ih =>
    obtain ⟨entries, hentries⟩ := hplace.root
    obtain rfl : root = .directory entries := Option.some.inj hentries
    obtain ⟨below, hget, hbelow⟩ := hasDirectory_cons.mp hplace
    rw [List.cons_append, put, hget, Option.getD_some]
    cases other with
    | nil => rw [occupant?_nil, occupant?_nil, if_neg (List.cons_ne_nil _ _).symm]
    | cons step rest =>
      rw [occupant?_cons, occupant?_cons, Fields.get?_set]
      by_cases hstep : step = outer
      · subst hstep
        have hinner : ¬ below.HasDirectory (place ++ [name]) := fun hinner =>
          hfree (hasDirectory_cons.mpr ⟨below, hget, hinner⟩)
        rw [if_pos rfl, Option.bind_some, hget, Option.bind_some, ih hbelow hinner]
        simp
      · rw [if_neg hstep, if_neg (by simp [hstep])]

/-- **Taking a file out** empties its place and changes nothing else. -/
theorem occupant?_take {content : ByteArray} (hne : place ≠ [])
    (hfile : root.occupant? place = some (.file content)) (other : List String) :
    (take place root).occupant? other = if other = place then none else root.occupant? other := by
  fun_induction take place root generalizing other with
  | case1 name entries =>
    cases other with
    | nil => rw [occupant?_nil, occupant?_nil, if_neg (List.cons_ne_nil _ _).symm]
    | cons step rest =>
      rw [occupant?_cons, Fields.get?_erase]
      by_cases hstep : step = name
      · subst hstep
        rw [if_pos rfl, Option.bind_none]
        cases rest with
        | nil => rw [if_pos rfl]
        | cons next rest =>
          have hplain : ¬ HasDirectory (.directory entries) [step] := by
            rw [← occupant?_eq_directory_iff, hfile]
            simp
          rw [if_neg (by simp)]
          exact (occupant?_eq_none_of_below hplain next rest).symm
      · rw [if_neg hstep, if_neg (by simp [hstep]), occupant?_cons]
  | case2 name rest entries hlonger below hget ih =>
    rw [occupant?_cons, hget, Option.bind_some] at hfile
    cases other with
    | nil => rw [occupant?_nil, occupant?_nil, if_neg (List.cons_ne_nil _ _).symm]
    | cons step more =>
      rw [occupant?_cons, occupant?_cons, Fields.get?_set]
      by_cases hstep : step = name
      · subst hstep
        rw [if_pos rfl, Option.bind_some, hget, Option.bind_some,
          ih (fun h => hlonger (by rw [h])) hfile]
        simp
      · rw [if_neg hstep, if_neg (by simp [hstep])]
  | case3 name rest entries hlonger hget =>
    rw [occupant?_cons, hget] at hfile
    cases hfile
  | case4 => exact absurd rfl hne
  | case5 name rest content' =>
    rw [occupant?_file_cons] at hfile
    cases hfile

end Node

namespace FileSystem

open Node PathName

variable {fs fs' : FileSystem} {text : String}

/-! ### Places -/

/-- Where a step leads if it can be taken. -/
def advance (place : List String) (step : String) : List String :=
  if step = "." then place else if step = ".." then place.dropLast else place ++ [step]

/-- Where a path leads if it leads anywhere. -/
def placeOf (fs : FileSystem) (text : String) : List String :=
  (ofText text).steps.foldl advance (fs.start (ofText text))

/-- The place is on the way of a path, before its last step that is not a `.`. -/
def Above (fs : FileSystem) (text : String) (place : List String) : Prop :=
  ∃ front back, (ofText text).steps = front ++ back ∧ (∃ step ∈ back, step ≠ ".") ∧
    place = front.foldl advance (fs.start (ofText text))

theorem advance_name {name : String} (h : IsEntryName name) (place : List String) :
    advance place name = place ++ [name] := by
  rw [advance, if_neg h.ne_here, if_neg h.ne_up]

/-- Segments that do not count lead nowhere. -/
theorem foldl_advance_of_not_name {segments : List String}
    (h : ∀ segment ∈ segments, isName segment = false) (place : List String) :
    (segments.filter (· ≠ "")).foldl advance place = place := by
  induction segments with
  | nil => rfl
  | cons segment rest ih =>
    have hrest := ih fun other hother => h other (List.mem_cons_of_mem _ hother)
    by_cases hempty : segment = ""
    · rw [List.filter_cons_of_neg (by simp [hempty]), hrest]
    · have hhere : segment = "." := by
        by_contra hne
        exact Bool.false_ne_true ((h segment List.mem_cons_self).symm.trans
          (isName_iff.mpr ⟨hempty, hne⟩))
      rw [List.filter_cons_of_pos (by simp [hempty]), List.foldl_cons, advance, if_pos hhere, hrest]

theorem start_congr {path path' : PathName} (hdir : fs'.workingDirectory = fs.workingDirectory)
    (habs : path'.isAbsolute = path.isAbsolute) : fs'.start path' = fs.start path := by
  rw [start, start, habs, hdir]

theorem placeOf_congr (h : fs'.workingDirectory = fs.workingDirectory) (text : String) :
    fs'.placeOf text = fs.placeOf text := by
  rw [placeOf, placeOf, start_congr h rfl]

theorem above_congr (h : fs'.workingDirectory = fs.workingDirectory) (text : String) :
    fs'.Above text = fs.Above text := by
  funext place
  rw [Above, Above, start_congr h rfl]

theorem placeOf_join {name : String} (fs : FileSystem) (base : String) (hname : IsEntryName name) :
    fs.placeOf (join base name) = fs.placeOf base ++ [name] := by
  rw [placeOf, steps_join base hname, start_congr rfl (isAbsolute_join base hname),
    List.foldl_append, List.foldl_cons, List.foldl_nil, advance_name hname]
  rfl

/-- A path with a last name leads to the entry of that name, where the path above it leads. -/
theorem placeOf_of_fileName? {name : String} (fs : FileSystem) (h : fileName? text = some name) :
    ∃ parent, parent? text = some parent ∧ IsEntryName name ∧
      fs.placeOf text = fs.placeOf parent ++ [name] := by
  obtain ⟨front, middle, behind, hsegments, hparent, hmiddle, hbehind, hname⟩ :=
    parent?_of_fileName? h
  have hcut : Cut ⟨(ofText text).start, front ++ (middle ++ name :: behind)⟩ := by
    rw [← List.append_assoc, ← hsegments]
    exact cut_ofText text
  have hstart : fs.start (ofText (toText ⟨(ofText text).start, front⟩)) = fs.start (ofText text) :=
    start_congr rfl (isAbsolute_toText hcut.front)
  refine ⟨_, hparent, hname, ?_⟩
  rw [placeOf, placeOf, hstart, steps_toText hcut.front, steps, steps, hsegments,
    List.filter_append, List.filter_append, List.filter_cons_of_pos (by simpa using hname.ne_empty),
    List.foldl_append, List.foldl_append, List.foldl_cons, foldl_advance_of_not_name hmiddle,
    advance_name hname, foldl_advance_of_not_name hbehind]

/-- The paths on the way to a path lead to places on its way, or where it leads itself. -/
theorem above_of_front {above : String} (fs : FileSystem)
    (habs : (ofText above).isAbsolute = (ofText text).isAbsolute) {back : List String}
    (hsteps : (ofText text).steps = (ofText above).steps ++ back)
    (hback : ∃ step ∈ back, step ≠ ".") : fs.Above text (fs.placeOf above) :=
  ⟨(ofText above).steps, back, hsteps, hback, by rw [placeOf, start_congr rfl habs]⟩

/-! ### Walks -/

theorem advance_of_enter {root : Node} {place next : List String} {step : String}
    (h : enter root place step = .ok next) : next = advance place step := by
  rw [advance]
  obtain ⟨-, ⟨hdot, rfl⟩ | ⟨hdot, hup, rfl⟩ | ⟨hname, -, rfl⟩⟩ := enter_eq_ok h
  · rw [if_pos hdot]
  · rw [if_neg hdot, if_pos hup]
  · rw [if_neg hname.1, if_neg hname.2]

theorem foldl_advance_of_follow {root : Node} {place goal : List String} {steps : List String}
    (h : follow root place steps = .ok goal) : goal = steps.foldl advance place := by
  induction steps generalizing place with
  | nil =>
    rw [follow] at h
    exact (Except.ok.inj h).symm
  | cons step rest ih =>
    rw [follow] at h
    split at h
    · cases h
    · rename_i next henter
      rw [List.foldl_cons, ← advance_of_enter henter]
      exact ih h

/-- A walk passes through directories. -/
theorem hasDirectory_on_way {root : Node} {place goal : List String} {front back : List String}
    (h : follow root place (front ++ back) = .ok goal) (hgoal : root.HasDirectory goal) :
    root.HasDirectory (front.foldl advance place) := by
  induction front generalizing place with
  | nil => exact hasDirectory_of_follow h hgoal
  | cons step front ih =>
    rw [List.cons_append, follow] at h
    split at h
    · cases h
    · rename_i next henter
      rw [List.foldl_cons, ← advance_of_enter henter]
      exact ih h

theorem checked_eq_ok {path : PathName} (h : checked text = .ok path) : path = ofText text := by
  unfold checked at h
  split_ifs at h
  exact (Except.ok.inj h).symm

theorem follow_of_locate {place : List String} {node : Node}
    (h : fs.locate text = .ok (place, node)) :
    checked text = .ok (ofText text) ∧
      follow fs.root (fs.start (ofText text)) (ofText text).steps = .ok place := by
  unfold locate at h
  split at h
  · cases h
  · rename_i path hpath
    obtain rfl := checked_eq_ok hpath
    split at h
    · cases h
    · rename_i goal hfollow
      split at h
      · cases h
      · split at h
        · cases h
        · obtain ⟨rfl, -⟩ := Prod.mk.inj (Except.ok.inj h)
          exact ⟨hpath, hfollow⟩

theorem placeOf_of_locate {place : List String} {node : Node}
    (h : fs.locate text = .ok (place, node)) : place = fs.placeOf text :=
  foldl_advance_of_follow (follow_of_locate h).2

/-- A target with a name is the place of its path, in a directory that is there, and all
    that the path passes are directories. -/
theorem target_named {target : Target} {name : String} (h : fs.target text = .ok target)
    (hname : target.name = some name) :
    target.place name = fs.placeOf text ∧ fs.root.HasDirectory target.directory ∧
      Fields.get? target.entries name = fs.root.at? (target.place name) ∧
      ∀ place, fs.Above text place → fs.root.HasDirectory place := by
  obtain ⟨path, hpath, hfollow, hentries, hlast, -⟩ := target_eq_ok h
  obtain rfl := checked_eq_ok hpath
  obtain ⟨hlast, hproper⟩ := Option.filter_eq_some_iff.mp (hlast.symm.trans hname)
  have hproper : name ≠ "." ∧ name ≠ ".." := by simpa using hproper
  obtain ⟨front, hsteps⟩ := List.getLast?_eq_some_iff.mp hlast
  rw [hsteps, List.dropLast_concat] at hfollow
  refine ⟨?_, ⟨_, hentries⟩, ?_, ?_⟩
  · rw [placeOf, hsteps, List.foldl_append, ← foldl_advance_of_follow hfollow, List.foldl_cons,
      List.foldl_nil, advance, if_neg hproper.1, if_neg hproper.2, Target.place]
  · rw [Target.place, at?_append, hentries, Option.bind_some, at?]
    cases Fields.get? target.entries name <;> rfl
  · rintro place ⟨ahead, back, hsplit, ⟨step, hstep, -⟩, rfl⟩
    obtain ⟨before, last, hback⟩ :=
      (List.eq_nil_or_concat back).resolve_left (List.ne_nil_of_mem hstep)
    rw [hsteps, hback, List.concat_eq_append, ← List.append_assoc] at hsplit
    rw [(List.append_inj' hsplit rfl).1] at hfollow
    exact hasDirectory_on_way hfollow ⟨_, hentries⟩

end FileSystem
end FlowDocs
