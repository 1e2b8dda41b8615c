/-
  FlowDocs/Proofs/FileSystem/Paths.lean
  =====================================
  **The steps of paths that were put together.**

  A path is known by the place where it starts and by its steps.  Joining a name to a path
  adds one step; the path above a path, and every path on the way to it, has the first of
  its steps and the same start.  All of this is about texts: no file system is looked at.
-/
import FlowDocs.FileSystem.PathName
import FlowDocs.Proofs.Lookup.Segments

namespace FlowDocs

namespace Text

/-- Joined parts are found again, if the mark is in none of them. -/
theorem cutAt_joinWith {mark : Char} {parts : List (List Char)} (hne : parts ≠ [])
    (hmark : ∀ part ∈ parts, mark ∉ part) : cutAt mark (joinWith mark parts) = parts := by
  induction parts with
  | nil => exact absurd rfl hne
  | cons part rest ih =>
    have hpart : cutAt mark part = [part] := cutAt_of_not_mem (hmark part List.mem_cons_self)
    cases rest with
    | nil => exact hpart
    | cons next rest =>
      have hrest := ih (List.cons_ne_nil next rest) fun p hp => hmark p (List.mem_cons_of_mem _ hp)
      rw [joinWith, cutAt_append_cons, hpart, hrest]
      · rfl
      · exact fun h => List.cons_ne_nil _ _ h

end Text

namespace PathName

/-! ### Parts -/

/-- What stands between the slashes of a text. -/
def parts (text : String) : List String := (Text.cutAt '/' text.toList).map String.ofList

/-- The parts without a leading `.`, which names the place to start from. -/
def afterHere : List String → List String
  | "." :: rest => rest
  | parts => parts

theorem parts_ne_nil (text : String) : parts text ≠ [] :=
  fun h => Text.cutAt_ne_nil '/' _ (List.map_eq_nil_iff.mp h)

theorem not_mem_of_mem_parts {text part : String} (h : part ∈ parts text) : '/' ∉ part.toList := by
  obtain ⟨cs, hcs, rfl⟩ := List.mem_map.mp h
  rw [String.toList_ofList]
  exact Text.not_mem_of_mem_cutAt hcs

theorem parts_of_not_mem {text : String} (h : '/' ∉ text.toList) : parts text = [text] := by
  rw [parts, Text.cutAt_of_not_mem h]
  simp

/-- A slash is a cut. -/
theorem parts_append_slash (front back : String) :
    parts (front ++ "/" ++ back) = parts front ++ parts back := by
  have hlist : (front ++ "/" ++ back).toList = front.toList ++ '/' :: back.toList := by simp
  rw [parts, hlist, Text.cutAt_append_cons, List.map_append]
  rfl

theorem parts_joinSegments {segments : List String} (hne : segments ≠ [])
    (hslash : ∀ segment ∈ segments, '/' ∉ segment.toList) :
    parts (joinSegments segments) = segments := by
  have hcut : Text.cutAt '/' (Text.joinWith '/' (segments.map String.toList))
      = segments.map String.toList := by
    apply Text.cutAt_joinWith
    · simpa using hne
    · simpa using hslash
  rw [parts, joinSegments, String.toList_ofList, hcut, List.map_map]
  simp

theorem joinSegments_parts (text : String) : joinSegments (parts text) = text := by
  have hlist : (parts text).map String.toList = Text.cutAt '/' text.toList := by simp [parts]
  rw [joinSegments, hlist, Text.joinWith_cutAt, String.ofList_toList]

/-- The parts decide how a path is read. -/
theorem ofText_cases (text : String) :
    (∃ first rest, parts text = "" :: first :: rest ∧ ofText text = ⟨.root, first :: rest⟩) ∨
    (∃ rest, parts text = "." :: rest ∧ ofText text = ⟨.here, rest⟩) ∨
    ((∀ first rest, parts text ≠ "" :: first :: rest) ∧ (∀ rest, parts text ≠ "." :: rest) ∧
      ofText text = ⟨.plain, parts text⟩) := by
  unfold ofText
  split
  · rename_i first rest hparts
    exact Or.inl ⟨first, rest, hparts, rfl⟩
  · rename_i rest hparts
    exact Or.inr (Or.inl ⟨rest, hparts, rfl⟩)
  · rename_i hroot hhere
    exact Or.inr (Or.inr ⟨hroot, hhere, rfl⟩)

theorem ofText_here {text : String} {rest : List String} (h : parts text = "." :: rest) :
    ofText text = ⟨.here, rest⟩ := by
  rcases ofText_cases text with ⟨_, _, hparts, -⟩ | ⟨rest', hparts, hread⟩ | ⟨-, hhere, -⟩
  · rw [h] at hparts
    exact absurd (List.cons.inj hparts).1 (by decide)
  · rw [hread, (List.cons.inj (hparts.symm.trans h)).2]
  · exact absurd h (hhere rest)

theorem afterHere_of_ne {parts : List String} (h : ∀ rest, parts ≠ "." :: rest) :
    afterHere parts = parts := by
  rw [afterHere]
  exact h

theorem steps_ofText (text : String) :
    (ofText text).steps = (afterHere (parts text)).filter (· ≠ "") := by
  rcases ofText_cases text with ⟨first, rest, hparts, hread⟩ | ⟨rest, hparts, hread⟩ |
    ⟨-, hhere, hread⟩
  · rw [hread, hparts]
    rfl
  · rw [hread, hparts]
    rfl
  · rw [hread, afterHere_of_ne hhere]
    rfl

theorem startsAtRoot_iff {text : String} :
    startsAtRoot text = true ↔ ∃ first rest, parts text = "" :: first :: rest := by
  rw [startsAtRoot, decide_eq_true_iff]
  constructor
  · intro h
    obtain ⟨cs, hcs⟩ := List.head?_eq_some_iff.mp h
    obtain ⟨first, rest, hrest⟩ := List.exists_cons_of_ne_nil (Text.cutAt_ne_nil '/' cs)
    refine ⟨String.ofList first, rest.map String.ofList, ?_⟩
    rw [parts, hcs, Text.cutAt, if_pos rfl, hrest]
    rfl
  · rintro ⟨first, rest, hparts⟩
    have hjoin := Text.joinWith_cutAt '/' text.toList
    rw [parts] at hparts
    obtain ⟨cs, more, hcut, hcs, hmore⟩ := List.map_eq_cons_iff.mp hparts
    obtain ⟨ds, last, rfl, -, -⟩ := List.map_eq_cons_iff.mp hmore
    obtain rfl : cs = [] := String.ofList_eq_empty_iff.mp hcs
    rw [hcut, Text.joinWith] at hjoin
    · rw [← hjoin]
      rfl
    · exact fun h => List.cons_ne_nil _ _ h

theorem isAbsolute_ofText (text : String) : (ofText text).isAbsolute = startsAtRoot text := by
  rw [Bool.eq_iff_iff, startsAtRoot_iff]
  rcases ofText_cases text with ⟨first, rest, hparts, hread⟩ | ⟨rest, hparts, hread⟩ |
    ⟨hroot, -, hread⟩
  · rw [hread, hparts]
    exact iff_of_true rfl ⟨first, rest, rfl⟩
  · rw [hread, hparts]
    simp [isAbsolute]
  · rw [hread]
    simp [isAbsolute, hroot]

/-! ### Joining -/

/-- A name that can stand in a directory and be stepped into. -/
structure IsEntryName (name : String) : Prop where
  ne_empty : name ≠ ""
  ne_here : name ≠ "."
  ne_up : name ≠ ".."
  slashless : '/' ∉ name.toList

theorem isEntryName_iff {name : String} :
    IsEntryName name ↔ name ≠ "" ∧ name ≠ "." ∧ name ≠ ".." ∧ '/' ∉ name.toList := by
  constructor
  · exact fun h => ⟨h.ne_empty, h.ne_here, h.ne_up, h.slashless⟩
  · rintro ⟨hempty, hhere, hup, hslash⟩
    exact ⟨hempty, hhere, hup, hslash⟩

instance (name : String) : Decidable (IsEntryName name) := decidable_of_iff _ isEntryName_iff.symm

theorem IsEntryName.not_startsAtRoot {name : String} (h : IsEntryName name) :
    startsAtRoot name = false := by
  rw [startsAtRoot, decide_eq_false_iff_not]
  intro hhead
  obtain ⟨cs, hcs⟩ := List.head?_eq_some_iff.mp hhead
  exact h.slashless (hcs ▸ List.mem_cons_self)

/-- Joining a name puts one part behind the others; an empty part at the end gives way. -/
theorem parts_join {base name : String} (hbase : base ≠ "") (hname : IsEntryName name) :
    ∃ front, parts (join base name) = front ++ [name] ∧ front ≠ [] ∧
      (parts base = front ∨ parts base = front ++ [""]) := by
  rw [join, hname.not_startsAtRoot]
  simp only [Bool.false_eq_true, if_false, hbase, decide_false, Bool.false_or]
  split
  · rename_i hslash
    rw [endsInSlash, decide_eq_true_iff] at hslash
    obtain ⟨cs, hcs⟩ := List.getLast?_eq_some_iff.mp hslash
    have hsplit : base = String.ofList cs ++ "/" ++ "" := by
      rw [← String.toList_inj, hcs]
      simp
    have hempty : parts "" = [""] := by decide
    refine ⟨parts (String.ofList cs), ?_, parts_ne_nil _, Or.inr ?_⟩
    · rw [hsplit, String.append_empty, parts_append_slash, parts_of_not_mem hname.slashless]
    · rw [hsplit, parts_append_slash, hempty]
  · exact ⟨parts base, by rw [parts_append_slash, parts_of_not_mem hname.slashless],
      parts_ne_nil base, Or.inl rfl⟩

theorem afterHere_append {front back : List String} (h : front ≠ []) :
    afterHere (front ++ back) = afterHere front ++ back := by
  cases front with
  | nil => exact absurd rfl h
  | cons first rest =>
    by_cases hfirst : first = "."
    · subst hfirst
      rfl
    · have hne : ∀ more, first :: (rest ++ back) ≠ "." :: more := by
        intro more hmore
        exact hfirst (List.cons.inj hmore).1
      have hne' : ∀ more, first :: rest ≠ "." :: more := by
        intro more hmore
        exact hfirst (List.cons.inj hmore).1
      rw [List.cons_append, afterHere_of_ne hne, afterHere_of_ne hne', List.cons_append]

/-- **Joining a name adds one step.** -/
theorem steps_join {name : String} (base : String) (hname : IsEntryName name) :
    (ofText (join base name)).steps = (ofText base).steps ++ [name] := by
  have hlast : [name].filter (· ≠ "") = [name] := by simp [hname.ne_empty]
  by_cases hbase : base = ""
  · have hjoin : join "" name = name := by
      rw [join, hname.not_startsAtRoot]
      simp
    have hne : ∀ rest, [name] ≠ "." :: rest := by
      intro rest hrest
      exact hname.ne_here (List.cons.inj hrest).1
    have hempty : (ofText "").steps = [] := by decide
    rw [hbase, hjoin, steps_ofText, parts_of_not_mem hname.slashless, afterHere_of_ne hne, hlast,
      hempty, List.nil_append]
  · obtain ⟨front, hparts, hfront, hsame⟩ := parts_join hbase hname
    rw [steps_ofText, steps_ofText, hparts, afterHere_append hfront, List.filter_append, hlast]
    rcases hsame with hsame | hsame
    · rw [hsame]
    · rw [hsame, afterHere_append hfront, List.filter_append]
      simp

theorem join_ne_empty {name : String} (base : String) (hname : IsEntryName name) :
    join base name ≠ "" := by
  intro hempty
  have hsteps := steps_join base hname
  have hnone : (ofText "").steps = [] := by decide
  rw [hempty, hnone] at hsteps
  exact List.append_ne_nil_of_right_ne_nil _ (List.cons_ne_nil _ _) hsteps.symm

theorem utf8ByteSize_le_join {name : String} (base : String) (hname : IsEntryName name) :
    base.utf8ByteSize + name.utf8ByteSize ≤ (join base name).utf8ByteSize := by
  rw [join, hname.not_startsAtRoot]
  simp only [Bool.false_eq_true, if_false]
  split
  · rw [String.utf8ByteSize_append]
  · rw [String.utf8ByteSize_append, String.utf8ByteSize_append]
    omega

/-- Joining brings in no character but the slash. -/
theorem mem_join {base name : String} {c : Char} (h : c ∈ (join base name).toList) :
    c ∈ base.toList ∨ c = '/' ∨ c ∈ name.toList := by
  rw [join] at h
  split_ifs at h
  · exact Or.inr (Or.inr h)
  · rw [String.toList_append, List.mem_append] at h
    exact h.imp_right Or.inr
  · simpa [or_assoc] using h

theorem isAbsolute_join {name : String} (base : String) (hname : IsEntryName name) :
    (ofText (join base name)).isAbsolute = (ofText base).isAbsolute := by
  rw [isAbsolute_ofText, isAbsolute_ofText, join, hname.not_startsAtRoot]
  by_cases hbase : base = ""
  · subst hbase
    simp [hname.not_startsAtRoot]
    decide
  · obtain ⟨c, cs, hcs⟩ := List.exists_cons_of_ne_nil (mt String.toList_eq_nil_iff.mp hbase)
    simp only [Bool.false_eq_true, if_false]
    split <;> simp [startsAtRoot, hcs]

/-! ### Writing a path -/

/-- The segments can have been read from a text: none of them has a slash, and the start
    is not hidden in the first. -/
structure Cut (path : PathName) : Prop where
  slashless : ∀ segment ∈ path.segments, '/' ∉ segment.toList
  not_root : path.start = .plain → ∀ first rest, path.segments ≠ "" :: first :: rest
  not_here : path.start = .plain → ∀ rest, path.segments ≠ "." :: rest

theorem cut_ofText (text : String) : (ofText text).Cut := by
  have hslash : ∀ segment ∈ parts text, '/' ∉ segment.toList := fun _ => not_mem_of_mem_parts
  rcases ofText_cases text with ⟨first, rest, hparts, hread⟩ | ⟨rest, hparts, hread⟩ |
    ⟨hroot, hhere, hread⟩
  · rw [hread]
    refine ⟨fun segment h => hslash segment (hparts ▸ List.mem_cons_of_mem _ h), ?_, ?_⟩ <;>
      exact fun hstart => PathStart.noConfusion hstart
  · rw [hread]
    refine ⟨fun segment h => hslash segment (hparts ▸ List.mem_cons_of_mem _ h), ?_, ?_⟩ <;>
      exact fun hstart => PathStart.noConfusion hstart
  · rw [hread]
    exact ⟨hslash, fun _ => hroot, fun _ => hhere⟩

theorem Cut.front {start : PathStart} {front back : List String} (h : Cut ⟨start, front ++ back⟩) :
    Cut ⟨start, front⟩ where
  slashless segment hmem := h.slashless segment (List.mem_append_left back hmem)
  not_root hstart first rest hfront := h.not_root hstart first (rest ++ back) (by
    rw [show front = _ from hfront]
    rfl)
  not_here hstart rest hfront := h.not_here hstart (rest ++ back) (by
    rw [show front = _ from hfront]
    rfl)

theorem parts_slash (text : String) : parts ("/" ++ text) = "" :: parts text := by
  have hempty : parts "" = [""] := by decide
  have h := parts_append_slash "" text
  rwa [String.empty_append, hempty] at h

/-- **A path is read as it was written**, but for segments that do not count. -/
theorem steps_toText {path : PathName} (h : path.Cut) :
    (ofText path.toText).steps = path.steps := by
  obtain ⟨start, segments⟩ := path
  have hempty : parts "" = [""] := by decide
  have hjoined : (parts (joinSegments segments)).filter (· ≠ "") = segments.filter (· ≠ "") := by
    by_cases hne : segments = []
    · rw [hne]
      rfl
    · rw [parts_joinSegments hne h.slashless]
  rw [steps_ofText]
  cases start with
  | root =>
    rw [toText, parts_slash]
    exact hjoined
  | here =>
    cases segments with
    | nil => rfl
    | cons first rest =>
      have hhere : parts ("./" ++ joinSegments (first :: rest))
          = "." :: parts (joinSegments (first :: rest)) :=
        parts_append_slash "." (joinSegments (first :: rest))
      rw [toText, hhere]
      exact hjoined
  | plain =>
    rw [toText]
    by_cases hne : segments = []
    · rw [hne]
      rfl
    · rw [parts_joinSegments hne h.slashless, afterHere_of_ne (h.not_here rfl)]
      rfl

theorem isAbsolute_toText {path : PathName} (h : path.Cut) :
    (ofText path.toText).isAbsolute = path.isAbsolute := by
  obtain ⟨start, segments⟩ := path
  rw [isAbsolute_ofText]
  cases start with
  | root =>
    rw [toText, startsAtRoot]
    simp [isAbsolute]
  | here =>
    cases segments with
    | nil => decide
    | cons first rest =>
      rw [toText, startsAtRoot]
      simp [isAbsolute]
  | plain =>
    rw [toText, Bool.eq_iff_iff, startsAtRoot_iff]
    by_cases hne : segments = []
    · subst hne
      refine iff_of_false ?_ (by simp [isAbsolute])
      rintro ⟨first, rest, hparts⟩
      cases hparts
    · rw [parts_joinSegments hne h.slashless]
      exact iff_of_false (fun ⟨first, rest, hparts⟩ => h.not_root rfl first rest hparts)
        (by simp [isAbsolute])

/-! ### Above a path -/

theorem isName_iff {segment : String} : isName segment = true ↔ segment ≠ "" ∧ segment ≠ "." := by
  simp [isName]

/-- What is left of segments from the last name backwards, and the segments behind it. -/
theorem backwards_append (segments : List String) :
    ∃ behind, segments = (backwards segments).reverse ++ behind ∧
      ∀ segment ∈ behind, isName segment = false := by
  refine ⟨(segments.reverse.takeWhile fun segment => !isName segment).reverse, ?_, ?_⟩
  · rw [backwards, ← List.reverse_append, List.takeWhile_append_dropWhile, List.reverse_reverse]
  · intro segment hsegment
    have h := List.mem_takeWhile_imp (List.mem_reverse.mp hsegment)
    simpa using h

theorem head_of_backwards {segments above : List String} {last : String}
    (h : backwards segments = last :: above) : isName last = true := by
  have hhead := List.head?_dropWhile_not (fun segment => !isName segment) segments.reverse
  rw [← backwards, h] at hhead
  simpa using hhead

/-- The segments around the last name, if there is one. -/
theorem segments_of_backwards {segments above : List String} {last : String}
    (h : backwards segments = last :: above) :
    ∃ middle behind, segments = (backwards above.reverse).reverse ++ middle ++ last :: behind ∧
      (∀ segment ∈ middle, isName segment = false) ∧ isName last = true ∧
      ∀ segment ∈ behind, isName segment = false := by
  obtain ⟨behind, hsegments, hbehind⟩ := backwards_append segments
  obtain ⟨middle, habove, hmiddle⟩ := backwards_append above.reverse
  rw [h, List.reverse_cons, habove] at hsegments
  exact ⟨middle, behind, by simpa using hsegments, hmiddle, head_of_backwards h, hbehind⟩

/-- **The path above a path** has the segments in front of the last name, but for some that do
    not count.  Above a plain start there is only the empty path. -/
theorem parent?_eq_some {text parent : String} (h : parent? text = some parent) :
    parent = "" ∨ ∃ front middle last behind,
      (ofText text).segments = front ++ middle ++ last :: behind ∧
      parent = toText ⟨(ofText text).start, front⟩ ∧
      (∀ segment ∈ middle, isName segment = false) ∧ isName last = true ∧
      ∀ segment ∈ behind, isName segment = false := by
  simp only [parent?] at h
  split at h
  · rename_i last above hbackwards
    obtain ⟨middle, behind, hsegments, hmiddle, hlast, hbehind⟩ := segments_of_backwards hbackwards
    exact Or.inr ⟨_, middle, last, behind, hsegments, (Option.some.inj h).symm, hmiddle, hlast,
      hbehind⟩
  · obtain ⟨-, hparent⟩ := Option.ite_none_right_eq_some.mp h
    exact Or.inl (Option.some.inj hparent).symm

/-- The last name of a path can stand in a directory, and there is a path above it. -/
theorem parent?_of_fileName? {text name : String} (h : fileName? text = some name) :
    ∃ front middle behind,
      (ofText text).segments = front ++ middle ++ name :: behind ∧
      parent? text = some (toText ⟨(ofText text).start, front⟩) ∧
      (∀ segment ∈ middle, isName segment = false) ∧
      (∀ segment ∈ behind, isName segment = false) ∧ IsEntryName name := by
  rw [fileName?] at h
  split at h
  · rename_i last above hbackwards
    obtain ⟨hup, hlast⟩ := Option.ite_none_left_eq_some.mp h
    obtain rfl := Option.some.inj hlast
    obtain ⟨middle, behind, hsegments, hmiddle, hname, hbehind⟩ := segments_of_backwards hbackwards
    obtain ⟨hempty, hhere⟩ := isName_iff.mp hname
    refine ⟨(backwards above.reverse).reverse, middle, behind, hsegments, ?_, hmiddle, hbehind,
      hempty, hhere, hup, ?_⟩
    · rw [parent?]
      simp only [hbackwards]
    · exact (cut_ofText text).slashless last (by rw [hsegments]; simp)
  · cases h

/-- The path above a path has the first of its steps, and the step to the last name is none of
    them. -/
theorem steps_of_parent? {text parent : String} (h : parent? text = some parent)
    (hne : parent ≠ "") :
    (ofText parent).isAbsolute = (ofText text).isAbsolute ∧
      ∃ back, (ofText text).steps = (ofText parent).steps ++ back ∧ ∃ step ∈ back, step ≠ "." := by
  obtain ⟨front, middle, last, behind, hsegments, rfl, -, hlast, -⟩ :=
    (parent?_eq_some h).resolve_left hne
  obtain ⟨hempty, hhere⟩ := isName_iff.mp hlast
  have hcut : Cut ⟨(ofText text).start, front ++ (middle ++ last :: behind)⟩ := by
    rw [← List.append_assoc, ← hsegments]
    exact cut_ofText text
  rw [isAbsolute_toText hcut.front, steps_toText hcut.front]
  refine ⟨rfl, (middle ++ last :: behind).filter (· ≠ ""), ?_, last, ?_, hhere⟩
  · rw [steps, hsegments, List.append_assoc, List.filter_append]
    rfl
  · simp [hempty]

theorem mem_upwards {start : PathStart} {reversed : List String} {text : String}
    (h : text ∈ upwards start reversed) :
    ∃ front back, reversed.reverse = front ++ back ∧ text = toText ⟨start, front⟩ := by
  induction reversed with
  | nil =>
    refine ⟨[], [], rfl, ?_⟩
    cases start with
    | root =>
      obtain rfl := List.mem_singleton.mp h
      rfl
    | here =>
      obtain rfl := List.mem_singleton.mp h
      rfl
    | plain => exact absurd h List.not_mem_nil
  | cons segment above ih =>
    have hrest : text ∈ upwards start above →
        ∃ front back, (segment :: above).reverse = front ++ back ∧
          text = toText ⟨start, front⟩ := by
      intro h
      obtain ⟨front, back, hsplit, htext⟩ := ih h
      exact ⟨front, back ++ [segment], by rw [List.reverse_cons, hsplit, List.append_assoc], htext⟩
    rw [upwards] at h
    split at h
    · rcases List.mem_cons.mp h with htext | h
      · exact ⟨(segment :: above).reverse, [], (List.append_nil _).symm, htext⟩
      · exact hrest h
    · exact hrest h

theorem upwards_ne_nil {start : PathStart} {reversed : List String}
    (h : start = .plain → ∃ segment ∈ reversed, isName segment = true) :
    upwards start reversed ≠ [] := by
  induction reversed with
  | nil =>
    cases start with
    | root => exact List.cons_ne_nil _ _
    | here => exact List.cons_ne_nil _ _
    | plain =>
      obtain ⟨segment, hsegment, -⟩ := h rfl
      exact absurd hsegment List.not_mem_nil
  | cons segment above ih =>
    rw [upwards]
    split
    · exact List.cons_ne_nil _ _
    · rename_i hnot
      refine ih fun hstart => ?_
      obtain ⟨name, hname, hproper⟩ := h hstart
      rcases List.mem_cons.mp hname with rfl | hname
      · exact absurd hproper hnot
      · exact ⟨name, hname, hproper⟩

/-- A path that is not empty is the first of the paths to make. -/
theorem ancestors_of_ne {text : String} (h : text ≠ "") :
    ∃ above, ancestors text = text :: above := by
  have hne : upwards (ofText text).start (ofText text).segments.reverse ≠ [] := by
    apply upwards_ne_nil
    intro hplain
    obtain ⟨first, rest, hparts⟩ := List.exists_cons_of_ne_nil (parts_ne_nil text)
    rcases ofText_cases text with ⟨_, _, -, hread⟩ | ⟨_, -, hread⟩ | ⟨hroot, hhere, hread⟩
    · rw [hread] at hplain
      cases hplain
    · rw [hread] at hplain
      cases hplain
    · rw [hread]
      refine ⟨first, by simp [hparts], isName_iff.mpr ⟨?_, ?_⟩⟩
      · rintro rfl
        cases rest with
        | nil =>
          have hback := joinSegments_parts text
          rw [hparts] at hback
          exact h hback.symm
        | cons next rest => exact hroot next rest hparts
      · rintro rfl
        exact hhere rest hparts
  obtain ⟨first, above, habove⟩ := List.exists_cons_of_ne_nil hne
  exact ⟨above, by rw [ancestors]; simp only [habove]⟩

/-- **The paths on the way** start where the path starts and have the first of its steps. -/
theorem steps_of_mem_ancestors {text above : String} (h : above ∈ ancestors text) :
    (ofText above).isAbsolute = (ofText text).isAbsolute ∧
      (ofText above).steps <+: (ofText text).steps := by
  have hcases : above = text ∨ above ∈ upwards (ofText text).start (ofText text).segments.reverse := by
    rw [ancestors] at h
    split at h
    · exact absurd h List.not_mem_nil
    · rename_i first rest hupwards
      rcases List.mem_cons.mp h with htext | h
      · exact Or.inl htext
      · exact Or.inr (hupwards ▸ List.mem_cons_of_mem _ h)
  rcases hcases with rfl | h
  · exact ⟨rfl, List.prefix_rfl⟩
  · obtain ⟨front, back, hsplit, rfl⟩ := mem_upwards h
    rw [List.reverse_reverse] at hsplit
    have hcut : Cut ⟨(ofText text).start, front ++ back⟩ := hsplit ▸ cut_ofText text
    rw [isAbsolute_toText hcut.front, steps_toText hcut.front]
    refine ⟨rfl, ?_⟩
    rw [steps, steps, hsplit, List.filter_append]
    exact List.prefix_append _ _

end PathName
end FlowDocs
