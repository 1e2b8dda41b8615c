/-
  FlowDocs/Proofs/Document/Directories.lean
  =========================================
  **The reports on a directory.**

  A walk through a directory meets its entries in the order of their names and each
  subdirectory as a whole, which is the lexicographic order of the places below it, names
  compared by their bytes.  What is met is told by the tree alone: `Documented` says which
  places have a report, and each report is that on the file at the path of the place.
-/
import FlowDocs.Document.File
import FlowDocs.Proofs.FileSystem.Entries
import FlowDocs.Proofs.FileSystem.Writing
import FlowDocs.Proofs.Text.Bytes

namespace FlowDocs.Document

open FileSystem

/-- The path of a place below a directory. -/
def under (dir : String) (place : List String) : String := place.foldl PathName.join dir

/-- The order in which places are met: by the first names in which they differ. -/
def Before : List String → List String → Prop :=
  List.Lex fun name other => Text.bytes name < Text.bytes other

theorem before_of_lt {name other : String} (h : Text.bytes name < Text.bytes other)
    (rest more : List String) : Before (name :: rest) (other :: more) :=
  List.Lex.rel h

theorem before_asymm {place other : List String} (h : Before place other) :
    ¬ Before other place := by
  intro h'
  induction h with
  | nil => cases h'
  | rel hlt =>
    cases h' with
    | rel hlt' => exact List.lt_asymm hlt hlt'
    | cons h' => exact List.lt_irrefl _ hlt
  | cons h ih =>
    cases h' with
    | rel hlt => exact List.lt_irrefl _ hlt
    | cons h' => exact ih h'

/-- Places in order are known by which they are. -/
theorem eq_of_before {places others : List (List String)} (h : places.Pairwise Before)
    (h' : others.Pairwise Before) (hmem : ∀ place, place ∈ places ↔ place ∈ others) :
    places = others := by
  have hnodup : ∀ {places : List (List String)}, places.Pairwise Before → places.Nodup := by
    refine fun h => h.imp ?_
    rintro place other hbefore rfl
    exact before_asymm hbefore hbefore
  exact List.Perm.eq_of_pairwise (fun _ _ _ _ hab hba => absurd hba (before_asymm hab)) h h'
    ((List.perm_ext_iff_of_nodup (hnodup h) (hnodup h')).mpr hmem)

/-- The places below a directory that have a report.  They are those of files with the name of
    a document, with no hidden directory above them.  A directory whose path is too long is
    not walked, and taken for a file. -/
def Documented (dir : String) (root : Node) (place : List String) : Prop :=
  ∃ above name node, place = above ++ [name] ∧ root.at? place = some node ∧
    isFileName name = true ∧ (∀ step ∈ above, isHidden step = false) ∧
    (∀ front, front <+: above → tooLong (under dir front) = false) ∧
    (node.isDirectory = true → tooLong (under dir place) = true)

/-- What makes a place below a directory documented, seen from the entry on the way to it:
    the place is the entry's own, or it is one below. -/
def Entered (dir name : String) (node : Node) (rest : List String) : Prop :=
  rest = [] ∧ isFileName name = true ∧
      (node.isDirectory = true → tooLong (PathName.join dir name) = true) ∨
    isHidden name = false ∧ Documented (PathName.join dir name) node rest

theorem not_documented_nil (dir : String) (root : Node) : ¬ Documented dir root [] := by
  rintro ⟨above, name, node, hplace, -⟩
  exact List.append_ne_nil_of_right_ne_nil above (List.cons_ne_nil name []) hplace.symm

theorem not_documented_file (dir : String) (content : ByteArray) (place : List String) :
    ¬ Documented dir (.file content) place := by
  rintro ⟨above, name, node, rfl, hnode, -⟩
  cases above <;> cases hnode

theorem not_documented_of_tooLong {dir : String} (h : tooLong dir = true) (root : Node)
    (place : List String) : ¬ Documented dir root place := by
  rintro ⟨above, name, node, -, -, -, -, hshort, -⟩
  exact Bool.false_ne_true ((hshort [] List.nil_prefix).symm.trans h)

theorem documented_cons {dir name : String} {entries : List (String × Node)} {rest : List String}
    (hdir : tooLong dir = false) :
    Documented dir (.directory entries) (name :: rest) ↔
      ∃ node, Fields.get? entries name = some node ∧ Entered dir name node rest := by
  constructor
  · rintro ⟨above, last, node, hplace, hnode, hlast, hhidden, hshort, hlong⟩
    rw [Node.at?] at hnode
    obtain ⟨below, hget, hbelow⟩ := Option.bind_eq_some_iff.mp hnode
    refine ⟨below, hget, ?_⟩
    cases above with
    | nil =>
      obtain ⟨rfl, rfl⟩ := List.cons.inj hplace
      rw [Node.at?] at hbelow
      obtain rfl := Option.some.inj hbelow
      exact Or.inl ⟨rfl, hlast, hlong⟩
    | cons step above =>
      obtain ⟨rfl, rfl⟩ := List.cons.inj hplace
      obtain ⟨hstep, hhidden⟩ := List.forall_mem_cons.mp hhidden
      refine Or.inr ⟨hstep, above, last, node, rfl, hbelow, hlast, hhidden, ?_, hlong⟩
      exact fun front hfront => hshort (name :: front) (List.cons_prefix_cons.mpr ⟨rfl, hfront⟩)
  · rintro ⟨below, hget, ⟨rfl, hname, hlong⟩ |
      ⟨hname, above, last, node, rfl, hnode, hlast, hhidden, hshort, hlong⟩⟩
    · refine ⟨[], name, below, rfl, ?_, hname, fun step hstep => ?_, ?_, hlong⟩
      · rw [Node.at?, hget]
        exact Node.at?.eq_1 below
      · exact absurd hstep List.not_mem_nil
      · intro front hfront
        rwa [List.prefix_nil.mp hfront]
    · refine ⟨name :: above, last, node, rfl, ?_, hlast, ?_, ?_, hlong⟩
      · rw [Node.at?, hget]
        exact hnode
      · exact List.forall_mem_cons.mpr ⟨hname, hhidden⟩
      · intro front hfront
        cases front with
        | nil => exact hdir
        | cons step front =>
          obtain ⟨rfl, hrest⟩ := List.cons_prefix_cons.mp hfront
          exact hshort front hrest

/-! ### Entries in order -/

theorem entryReports_eq_map (dir : String) (entries : List (String × Node)) :
    entryReports dir entries = entries.map fun entry =>
      (entry.1, nodeReports (PathName.join dir entry.1) entry.1 entry.2) := by
  induction entries with
  | nil => rw [entryReports, List.map_nil]
  | cons entry rest ih =>
    obtain ⟨name, node⟩ := entry
    rw [entryReports, ih, List.map_cons]

theorem inNameOrder_perm {α : Type} (named : List (String × α)) :
    (inNameOrder named).Perm named :=
  List.mergeSort_perm _ _

/-- Values may be computed before the names are put in order, or after. -/
theorem inNameOrder_map {α β : Type} (named : List (String × α)) (value : String × α → β) :
    inNameOrder (named.map fun entry => (entry.1, value entry))
      = (inNameOrder named).map fun entry => (entry.1, value entry) := by
  let pair : String × α → String × β := fun entry => (entry.1, value entry)
  exact (List.map_mergeSort (f := pair) (s := fun a b => decide (a.1 ≤ b.1))
    (r := fun a b => decide (a.1 ≤ b.1)) fun a _ b _ => rfl).symm

theorem pairwise_inNameOrder {α : Type} {named : List (String × α)}
    (h : (named.map Prod.fst).Nodup) :
    (inNameOrder named).Pairwise fun a b => Text.bytes a.1 < Text.bytes b.1 := by
  have hsorted : (inNameOrder named).Pairwise fun a b => a.1 ≤ b.1 := by
    have hle := @List.pairwise_mergeSort (String × α) (fun a b => decide (a.1 ≤ b.1))
      (fun a b c hab hbc => decide_eq_true (le_trans (of_decide_eq_true hab) (of_decide_eq_true hbc)))
      (fun a b => by simpa using le_total a.1 b.1) named
    exact hle.imp of_decide_eq_true
  have hdistinct : (inNameOrder named).Pairwise fun a b => a.1 ≠ b.1 := by
    rw [← List.pairwise_map]
    exact ((inNameOrder_perm named).map Prod.fst).nodup_iff.mpr h
  exact (hsorted.and hdistinct).imp fun ⟨hle, hne⟩ => Text.bytes_lt_iff.mpr (lt_of_le_of_ne hle hne)

theorem directoryReports_eq_flatMap (dir : String) (entries : List (String × Node)) :
    directoryReports dir entries = (inNameOrder entries).flatMap fun entry =>
      nodeReports (PathName.join dir entry.1) entry.1 entry.2 := by
  rw [directoryReports, entryReports_eq_map,
    inNameOrder_map entries fun entry => nodeReports (PathName.join dir entry.1) entry.1 entry.2,
    List.flatMap_map]

/-! ### Walking a tree -/

/-- The places with a property, each once and in the order of a walk, and the reports on the
    files there. -/
structure Reported (fs : FileSystem) (dir : String) (met : List String → Prop)
    (places : List (List String)) (reports : List Report) : Prop where
  reports_eq : reports = places.map fun place => fileReport fs (under dir place)
  ordered : places.Pairwise Before
  mem_iff : ∀ place, place ∈ places ↔ met place

variable {fs : FileSystem}

theorem reported_nil {dir : String} {met : List String → Prop} (h : ∀ place, ¬ met place) :
    Reported fs dir met [] [] :=
  ⟨rfl, List.Pairwise.nil, fun place => iff_of_false List.not_mem_nil (h place)⟩

/-- A single place is that of the node itself. -/
theorem reported_self {dir : String} {met : List String → Prop} {report : Report}
    (hreport : report = fileReport fs dir) (h : ∀ place, met place ↔ place = []) :
    Reported fs dir met [[]] [report] :=
  ⟨by rw [hreport]; rfl, List.pairwise_singleton _ _, fun place => by rw [h, List.mem_singleton]⟩

/-- The places below a directory are those below its entries, entry by entry. -/
theorem reported_of_entries {dir : String} {entries : List (String × Node)}
    (hdir : tooLong dir = false) (hdistinct : (Fields.names entries).Nodup)
    (h : ∀ entry ∈ entries, ∃ places, Reported fs (PathName.join dir entry.1)
      (Entered dir entry.1 entry.2) places
      (nodeReports (PathName.join dir entry.1) entry.1 entry.2)) :
    ∃ places, Reported fs dir (Documented dir (.directory entries)) places
      (directoryReports dir entries) := by
  choose! placesOf hplaces using h
  have hmem : ∀ {entry}, entry ∈ inNameOrder entries ↔ entry ∈ entries :=
    (inNameOrder_perm entries).mem_iff
  refine ⟨(inNameOrder entries).flatMap fun entry => (placesOf entry).map (entry.1 :: ·), ?_, ?_, ?_⟩
  · rw [directoryReports_eq_flatMap, List.map_flatMap]
    apply List.flatMap_congr
    intro entry hentry
    rw [(hplaces entry (hmem.mp hentry)).reports_eq, List.map_map]
    rfl
  · rw [List.pairwise_flatMap]
    constructor
    · intro entry hentry
      rw [List.pairwise_map]
      exact (hplaces entry (hmem.mp hentry)).ordered.imp List.Lex.cons
    · refine (pairwise_inNameOrder hdistinct).imp fun {first later} hlt place hplace other hother => ?_
      obtain ⟨rest, -, rfl⟩ := List.mem_map.mp hplace
      obtain ⟨more, -, rfl⟩ := List.mem_map.mp hother
      exact before_of_lt hlt rest more
  · intro place
    rw [List.mem_flatMap]
    constructor
    · rintro ⟨entry, hentry, hplace⟩
      obtain ⟨rest, hrest, rfl⟩ := List.mem_map.mp hplace
      exact (documented_cons hdir).mpr ⟨entry.2,
        (Fields.get?_eq_some_iff hdistinct).mpr (hmem.mp hentry),
        ((hplaces entry (hmem.mp hentry)).mem_iff rest).mp hrest⟩
    · intro hplace
      cases place with
      | nil => exact absurd hplace (not_documented_nil dir _)
      | cons name rest =>
        obtain ⟨node, hget, hentered⟩ := (documented_cons hdir).mp hplace
        have hentry := Fields.mem_of_get? hget
        exact ⟨(name, node), hmem.mpr hentry, List.mem_map.mpr
          ⟨rest, ((hplaces (name, node) hentry).mem_iff rest).mpr hentered, rfl⟩⟩

/-! ### Reading what is met -/

/-- The text of an entry of a directory is that of the file. -/
theorem readText_entry {dir name : String} {entries : List (String × Node)} {content : ByteArray}
    (h : fs.Leads dir (.directory entries)) (hname : IsDiskName name)
    (hget : Fields.get? entries name = some (.file content)) :
    fs.readText (PathName.join dir name) = textAt (PathName.join dir name) content := by
  rw [readText, readBytes, textAt]
  cases hlong : tooLong (PathName.join dir name) with
  | true =>
    rw [(h.join hname hget).locate_of_tooLong hlong]
    rfl
  | false =>
    obtain ⟨place, hlocate⟩ := h.locate_join hname hget hlong
    rw [hlocate]
    rfl

/-- A directory is not met as a file but for the length of its path. -/
theorem readText_of_tooLong {path : String} {node : Node} (h : fs.Leads path node)
    (hlong : tooLong path = true) : fs.readText path = .error .nameTooLong := by
  rw [readText, readBytes, h.locate_of_tooLong hlong]

/-- Where nothing is below an entry, at most the entry itself is met. -/
theorem entered_leaf_iff {dir name : String} {node : Node}
    (h : ∀ rest, ¬ Documented (PathName.join dir name) node rest) {rest : List String} :
    Entered dir name node rest ↔ rest = [] ∧ isFileName name = true ∧
      (node.isDirectory = true → tooLong (PathName.join dir name) = true) :=
  or_iff_left fun hbelow => h rest hbelow.2

/-- A directory that can be walked is not met itself. -/
theorem entered_directory_iff {dir name : String} {entries : List (String × Node)}
    (h : tooLong (PathName.join dir name) = false) {rest : List String} :
    Entered dir name (.directory entries) rest ↔
      isHidden name = false ∧ Documented (PathName.join dir name) (.directory entries) rest :=
  or_iff_right fun hself => Bool.false_ne_true (h.symm.trans (hself.2.2 rfl))

/-- **A walk through a tree** meets what is documented, in order. -/
theorem reported_of_node {node : Node} (hwell : node.WellFormed) {dir name : String}
    {outer : List (String × Node)} (hleads : fs.Leads dir (.directory outer))
    (hname : IsDiskName name) (hget : Fields.get? outer name = some node) :
    ∃ places, Reported fs (PathName.join dir name) (Entered dir name node) places
      (nodeReports (PathName.join dir name) name node) := by
  induction hwell generalizing dir name outer with
  | file content =>
    have hleaf := @entered_leaf_iff dir name _ (not_documented_file _ content)
    rw [nodeReports]
    split_ifs with hdocument
    · refine ⟨[[]], reported_self ?_ fun rest => ?_⟩
      · rw [fileReport, readText_entry hleads hname hget]
      · rw [hleaf]
        exact and_iff_left ⟨hdocument, fun h => absurd h Bool.false_ne_true⟩
    · exact ⟨[], reported_nil fun rest hrest => hdocument (hleaf.mp hrest).2.1⟩
  | @directory entries distinct named below ih =>
    have hpath := hleads.join hname hget
    rw [nodeReports]
    split_ifs with hlong hdocument hhidden
    · have hleaf := @entered_leaf_iff dir name _ (not_documented_of_tooLong hlong (.directory entries))
      refine ⟨[[]], reported_self ?_ fun rest => ?_⟩
      · rw [fileReport, readText_of_tooLong hpath hlong]
      · rw [hleaf]
        exact and_iff_left ⟨hdocument, fun _ => hlong⟩
    · have hleaf := @entered_leaf_iff dir name _ (not_documented_of_tooLong hlong (.directory entries))
      exact ⟨[], reported_nil fun rest hrest => hdocument (hleaf.mp hrest).2.1⟩
    · have hwalked := @entered_directory_iff dir name entries (by simpa using hlong)
      refine ⟨[], reported_nil fun rest hrest => ?_⟩
      exact Bool.false_ne_true ((hwalked.mp hrest).1.symm.trans hhidden)
    · have hshort : tooLong (PathName.join dir name) = false := by simpa using hlong
      obtain ⟨places, hplaces⟩ := @reported_of_entries fs _ _ hshort distinct fun entry hentry =>
        ih entry hentry hpath (named entry.1 (List.mem_map_of_mem hentry))
          ((Fields.get?_eq_some_iff distinct).mpr hentry)
      refine ⟨places, hplaces.reports_eq, hplaces.ordered, fun rest => ?_⟩
      rw [entered_directory_iff hshort, hplaces.mem_iff]
      exact (and_iff_right (by simpa using hhidden)).symm

/-- **The reports on a directory** are those on the documented places below it. -/
theorem reported_of_directory {dir : String} {entries : Fields Node}
    (hwell : (Node.directory entries).WellFormed) (h : fs.entries dir = .ok entries) :
    ∃ places, Reported fs dir (Documented dir (.directory entries)) places
      (directoryReports dir entries) := by
  obtain ⟨place, hlocate⟩ := entries_eq_ok h
  obtain ⟨hleads, hshort⟩ := leads_of_locate hlocate
  cases hwell with
  | directory distinct named below =>
    refine reported_of_entries hshort distinct fun entry hentry => ?_
    exact reported_of_node (below entry hentry) hleads
      (named entry.1 (List.mem_map_of_mem hentry)) ((Fields.get?_eq_some_iff distinct).mpr hentry)

theorem run_reportsBelow {dir : String} {entries : Fields Node} (h : fs.entries dir = .ok entries) :
    (reportsBelow dir).run fs = (.ok (directoryReports dir entries), fs) := by
  rw [reportsBelow, Disk.run_bind, Disk.run_query, h]
  rfl

end FlowDocs.Document
