/-
  FlowDocs/Proofs/Store/Listing.lean
  ==================================
  **What a store lists.**

  The list of a kind and the reports on its directory are made by two walks and two readers
  of files.  They agree: a file is parsed exactly if its report is valid, with the kind and
  the version of the report, and the files that are listed are those of the reports that
  lie in the directory itself and can be reached, in the same order.
-/
import FlowDocs.Proofs.Document.Directories
import FlowDocs.Proofs.Document.Rules
import FlowDocs.Store

namespace FlowDocs

open Document FileSystem

variable {fs : FileSystem}

/-! ### Reading one document -/

namespace Document

/-- The record of a document agrees with a report. -/
def Agrees (report : Report) (parsed : Parsed) : Prop :=
  report.kind = some parsed.kind ∧ report.version = some parsed.version

theorem parse_of_valid {document : Json} (h : (validate document).valid = true) :
    ∃ parsed, parse document = .ok parsed ∧ Agrees (validate document) parsed := by
  obtain ⟨kind, version, hkind, -, hversion, -⟩ := named_of_valid h
  simp only [parse, h, if_true]
  exact ⟨_, rfl, by rw [hkind]; rfl, by rw [hversion]; rfl⟩

theorem parse_of_not_valid {document : Json} (h : (validate document).valid = false) :
    parse document = .error (.invalid (validate document).problems) := by
  simp only [parse, h, Bool.false_eq_true, if_false]

/-- Reading a value leaves the file system alone and fails as the report says. -/
theorem run_readValue (fs : FileSystem) (path : String) :
    (∃ failure, (readValue path).run fs = (.error failure, fs) ∧
      (fileReport fs path).valid = false) ∨
    (∃ document, (readValue path).run fs = (.ok document, fs) ∧
      fileReport fs path = { validate document with file := some path }) := by
  rw [readValue, fileReport]
  have hread : (Disk.readText path).run fs
      = ((fs.readText path).mapError (Failure.io .read path), fs) := Disk.run_query ..
  cases htext : fs.readText path with
  | error cause =>
    rw [htext] at hread
    exact Or.inl ⟨_, Disk.run_bind_of_error hread, rfl⟩
  | ok text =>
    rw [htext] at hread
    rw [Disk.run_bind_of_ok hread, reportOn]
    cases Json.parse text with
    | error error => exact Or.inl ⟨_, rfl, rfl⟩
    | ok document => exact Or.inr ⟨document, rfl, rfl⟩

/-- **The two readers of files agree.**  A document is read from a file exactly if the report
    on the file is valid. -/
theorem run_parseFile (fs : FileSystem) (path : String) :
    (∃ failure, (parseFile path).run fs = (.error failure, fs) ∧
      (fileReport fs path).valid = false) ∨
    (∃ parsed, (parseFile path).run fs = (.ok parsed, fs) ∧
      (fileReport fs path).valid = true ∧ Agrees (fileReport fs path) parsed) := by
  rw [parseFile]
  rcases run_readValue fs path with ⟨failure, hrun, hinvalid⟩ | ⟨document, hrun, hreport⟩
  · exact Or.inl ⟨failure, Disk.run_bind_of_error hrun, hinvalid⟩
  · rw [Disk.run_bind_of_ok hrun, hreport]
    cases hvalid : (validate document).valid with
    | false =>
      rw [parse_of_not_valid hvalid]
      exact Or.inl ⟨_, rfl, hvalid⟩
    | true =>
      obtain ⟨parsed, hparse, hagrees⟩ := parse_of_valid hvalid
      rw [hparse]
      exact Or.inr ⟨parsed, rfl, hvalid, hagrees⟩

end Document

namespace Store

/-! ### Reading all of them -/

/-- What is listed of a document that lies in a directory. -/
def ListedAs (fs : FileSystem) (directory name : String) (listed : Listed) : Prop :=
  listed.file = name ∧ listed.path = PathName.join directory name ∧
    Agrees (fileReport fs listed.path) listed.document

/-- All documents are listed, in their order, or there is one whose report is not valid. -/
theorem run_parseAll (fs : FileSystem) (directory : String) (names : List String) :
    (∃ failure, (parseAll directory names).run fs = (.error failure, fs) ∧
      ∃ name ∈ names, (fileReport fs (PathName.join directory name)).valid = false) ∨
    (∃ listed, (parseAll directory names).run fs = (.ok listed, fs) ∧
      (∀ name ∈ names, (fileReport fs (PathName.join directory name)).valid = true) ∧
      List.Forall₂ (ListedAs fs directory) names listed) := by
  induction names with
  | nil => exact Or.inr ⟨[], rfl, fun name h => absurd h List.not_mem_nil, List.Forall₂.nil⟩
  | cons name rest ih =>
    rw [parseAll]
    rcases run_parseFile fs (PathName.join directory name) with
      ⟨failure, hrun, hinvalid⟩ | ⟨parsed, hrun, hvalid, hagrees⟩
    · exact Or.inl ⟨failure, Disk.run_bind_of_error hrun, name, List.mem_cons_self, hinvalid⟩
    · rw [Disk.run_bind_of_ok hrun]
      rcases ih with ⟨failure, hrest, other, hother, hinvalid⟩ | ⟨listed, hrest, hall, hlisted⟩
      · exact Or.inl ⟨failure, Disk.run_bind_of_error hrest, other,
          List.mem_cons_of_mem name hother, hinvalid⟩
      · rw [Disk.run_bind_of_ok hrest]
        exact Or.inr ⟨_, rfl, List.forall_mem_cons.mpr ⟨hvalid, hall⟩,
          List.Forall₂.cons ⟨rfl, rfl, hagrees⟩ hlisted⟩

/-! ### Which documents are listed -/

/-- The entry is a document of the directory that can be read. -/
def isReachable (directory : String) (entry : String × Node) : Bool :=
  isFileName entry.1 && (!entry.2.isDirectory && !tooLong (PathName.join directory entry.1))

theorem documentNames_eq (directory : String) (entries : Fields Node) :
    documentNames directory entries
      = (inNameOrder (entries.filter (isReachable directory))).map Prod.fst := by
  have hsort := List.map_mergeSort (f := Prod.fst) (r := fun a b => decide (a.1 ≤ b.1))
    (s := fun a b => decide (a ≤ b)) (l := entries.filter (isReachable directory))
    fun a _ b _ => rfl
  rw [inNameOrder, hsort, documentNames]
  congr 2
  apply List.filter_congr
  rintro ⟨name, node⟩ -
  cases node <;> simp [isReachable, Node.isDirectory]

/-- A name alone is the place of an entry.  It is documented and leads to a file exactly if the
    entry is a document that can be read. -/
theorem documented_and_isFile_iff {directory name : String} {entries : List (String × Node)}
    {node : Node} (hleads : fs.Leads directory (.directory entries))
    (hshort : tooLong directory = false) (hname : IsDiskName name)
    (hget : Fields.get? entries name = some node) :
    Documented directory (.directory entries) [name] ∧
        fs.isFile (PathName.join directory name) = true ↔
      isReachable directory (name, node) = true := by
  rw [documented_cons hshort, hleads.isFile_join_iff hname hget, isReachable]
  simp only [Bool.and_eq_true, Bool.not_eq_true']
  constructor
  · rintro ⟨⟨node', hget', ⟨-, hdocument, -⟩ | ⟨-, hbelow⟩⟩, hfile⟩
    · exact ⟨hdocument, hfile⟩
    · exact absurd hbelow (not_documented_nil _ node')
  · rintro ⟨hdocument, hfile⟩
    refine ⟨⟨node, hget, Or.inl ⟨rfl, hdocument, fun hdirectory => ?_⟩⟩, hfile⟩
    exact absurd (hfile.1.symm.trans hdirectory) Bool.false_ne_true

/-- The place is that of a file in the directory itself. -/
def liesIn (fs : FileSystem) (directory : String) (place : List String) : Bool :=
  place.length = 1 && fs.isFile (under directory place)

theorem mem_documentNames {directory name : String} {entries : Fields Node}
    (hdistinct : (Fields.names entries).Nodup) :
    name ∈ documentNames directory entries ↔
      ∃ node, Fields.get? entries name = some node ∧ isReachable directory (name, node) = true := by
  rw [documentNames_eq, ((inNameOrder_perm _).map Prod.fst).mem_iff, List.mem_map]
  constructor
  · rintro ⟨⟨name, node⟩, hentry, rfl⟩
    obtain ⟨hentry, hreach⟩ := List.mem_filter.mp hentry
    exact ⟨node, (Fields.get?_eq_some_iff hdistinct).mpr hentry, hreach⟩
  · rintro ⟨node, hget, hreach⟩
    exact ⟨(name, node), List.mem_filter.mpr ⟨Fields.mem_of_get? hget, hreach⟩, rfl⟩

/-- **The documents that are listed** are those of the reports that lie in the directory. -/
theorem map_documentNames {directory : String} {entries : Fields Node}
    {places : List (List String)} (hwell : (Node.directory entries).WellFormed)
    (h : fs.entries directory = .ok entries) (hordered : places.Pairwise Before)
    (hmem : ∀ place, place ∈ places ↔ Documented directory (.directory entries) place) :
    (documentNames directory entries).map (fun name => [name])
      = places.filter (liesIn fs directory) := by
  obtain ⟨place, hlocate⟩ := entries_eq_ok h
  obtain ⟨hleads, hshort⟩ := leads_of_locate hlocate
  cases hwell with
  | directory distinct named below =>
    have hreach : ∀ {name node}, Fields.get? entries name = some node →
        (Documented directory (.directory entries) [name] ∧
          fs.isFile (PathName.join directory name) = true ↔
            isReachable directory (name, node) = true) := fun hget =>
      documented_and_isFile_iff hleads hshort
        (named _ (List.mem_map_of_mem (Fields.mem_of_get? hget))) hget
    refine eq_of_before ?_ (hordered.filter _) fun place => ?_
    · have hkept : ((entries.filter (isReachable directory)).map Prod.fst).Nodup :=
        distinct.sublist (List.filter_sublist.map Prod.fst)
      rw [documentNames_eq, List.map_map, List.pairwise_map]
      exact (pairwise_inNameOrder hkept).imp fun hlt => before_of_lt hlt [] []
    · rw [List.mem_map, List.mem_filter, hmem, liesIn, Bool.and_eq_true, decide_eq_true_iff]
      constructor
      · rintro ⟨name, hname, rfl⟩
        obtain ⟨node, hget, hreachable⟩ := (mem_documentNames distinct).mp hname
        obtain ⟨hdocumented, hfile⟩ := (hreach hget).mpr hreachable
        exact ⟨hdocumented, rfl, hfile⟩
      · rintro ⟨hdocumented, hlength, hfile⟩
        obtain ⟨name, rfl⟩ := List.length_eq_one_iff.mp hlength
        obtain ⟨node, hget, -⟩ := (documented_cons hshort).mp hdocumented
        exact ⟨name, (mem_documentNames distinct).mpr
          ⟨node, hget, (hreach hget).mp ⟨hdocumented, hfile⟩⟩, rfl⟩

/-! ### The list -/

theorem run_list {store : Store} {kind : Kind} {entries : Fields Node}
    (h : fs.entries (store.kindDirectory kind) = .ok entries) :
    (store.list kind).run fs = (parseAll (store.kindDirectory kind)
      (documentNames (store.kindDirectory kind) entries)).run fs := by
  obtain ⟨place, hlocate⟩ := entries_eq_ok h
  have hthere := isDirectory_iff_locate.mpr ⟨place, entries, hlocate⟩
  have hquery := Disk.run_query .readDirectory (store.kindDirectory kind)
    (fun fs => fs.entries (store.kindDirectory kind)) fs
  rw [h] at hquery
  rw [list, Disk.run_get_bind, if_pos hthere, Disk.run_bind_of_ok hquery]

/-- **The reports on a directory and the list of a kind.**  Take any directory of a tree as it
    can be on a disk.  The reports are those on the documented places below it, each once,
    in the order of a walk: a place is met before another if its name has the smaller bytes
    where they part.  If the directory is that of a kind in a store, the documents are listed
    if the reports on those that lie in it and can be read are all valid.  Then exactly these
    are listed, in the order of their reports and with the kind and the version of their
    reports. -/
theorem reports_and_list {directory : String} {entries : Fields Node}
    (hwell : (Node.directory entries).WellFormed) (h : fs.entries directory = .ok entries) :
    ∃ places : List (List String), (reportsBelow directory).run fs
        = (.ok (places.map fun place => fileReport fs (under directory place)), fs) ∧
      places.Pairwise Before ∧
      (∀ place, place ∈ places ↔ Documented directory (.directory entries) place) ∧
      ∀ (store : Store) (kind : Kind), store.kindDirectory kind = directory →
        ∃ result, (store.list kind).run fs = (result, fs) ∧
          ((∃ listed, result = .ok listed) ↔ ∀ place ∈ places.filter (liesIn fs directory),
            (fileReport fs (under directory place)).valid = true) ∧
          ∀ listed, result = .ok listed →
            List.Forall₂ (fun place (document : Listed) => place = [document.file] ∧
                document.path = under directory place ∧
                (fileReport fs (under directory place)).kind = some document.document.kind ∧
                (fileReport fs (under directory place)).version = some document.document.version)
              (places.filter (liesIn fs directory)) listed := by
  obtain ⟨places, hplaces⟩ := reported_of_directory hwell h
  refine ⟨places, ?_, hplaces.ordered, hplaces.mem_iff, ?_⟩
  · rw [run_reportsBelow h, hplaces.reports_eq]
  rintro store kind rfl
  rw [run_list h, ← map_documentNames hwell h hplaces.ordered hplaces.mem_iff]
  rcases run_parseAll fs (store.kindDirectory kind)
      (documentNames (store.kindDirectory kind) entries) with
    ⟨failure, hrun, name, hname, hinvalid⟩ | ⟨listed, hrun, hvalid, hlisted⟩
  · refine ⟨_, hrun, iff_of_false ?_ fun hall => ?_, ?_⟩
    · rintro ⟨listed, hlisted⟩
      cases hlisted
    · exact Bool.false_ne_true (hinvalid.symm.trans (hall _ (List.mem_map_of_mem hname)))
    · rintro listed hlisted
      cases hlisted
  · refine ⟨_, hrun, iff_of_true ⟨listed, rfl⟩ ?_, ?_⟩
    · intro place hplace
      obtain ⟨name, hname, rfl⟩ := List.mem_map.mp hplace
      exact hvalid name hname
    · rintro listed' hsame
      obtain rfl := Except.ok.inj hsame
      rw [List.forall₂_map_left_iff]
      refine hlisted.imp ?_
      rintro name document ⟨rfl, hpath, hkind, hversion⟩
      rw [hpath] at hkind hversion
      exact ⟨rfl, hpath, hkind, hversion⟩

/-- A shelf with a document, and with another one level down. -/
def shelf : Fields Node :=
  [("b.0n", .file "1".toUTF8), ("a", .directory [("c.0n", .file "2".toUTF8)])]

/-- A store in the working directory, with connections only. -/
def library : FileSystem := ⟨.directory [("connections", .directory shelf)], []⟩

theorem wellFormed_shelf : (Node.directory shelf).WellFormed := by
  have hinner : (Node.directory [("c.0n", .file "2".toUTF8)]).WellFormed := by
    refine .directory (List.nodup_singleton _) (by decide +kernel) ?_
    intro entry h
    obtain rfl := List.mem_singleton.mp h
    exact .file _
  refine .directory (by decide) (by decide +kernel) ?_
  intro entry h
  rcases List.mem_pair.mp h with rfl | rfl
  · exact .file _
  · exact hinner

theorem reports_and_list_shelf :
    (Node.directory shelf).WellFormed ∧ library.entries "./connections" = .ok shelf ∧
      ∃ places : List (List String), (reportsBelow "./connections").run library
          = (.ok (places.map fun place => fileReport library (under "./connections" place)),
            library) ∧
        ["a", "c.0n"] ∈ places ∧ ["b.0n"] ∈ places ∧
        ∃ result, (list ⟨"."⟩ .connection).run library = (result, library) := by
  have hentries : library.entries "./connections" = .ok shelf := by rfl
  obtain ⟨places, hrun, -, hmem, hlist⟩ := reports_and_list wellFormed_shelf hentries
  obtain ⟨result, hresult, -, -⟩ := hlist ⟨"."⟩ .connection (by decide +kernel)
  have hway : ∀ front, front <+: ["a"] → tooLong (under "./connections" front) = false := by
    intro front hfront
    cases front with
    | nil => decide +kernel
    | cons step rest =>
      obtain ⟨rfl, hrest⟩ := List.cons_prefix_cons.mp hfront
      obtain rfl := List.prefix_nil.mp hrest
      decide +kernel
  have hdeep : Documented "./connections" (.directory shelf) ["a", "c.0n"] :=
    ⟨["a"], "c.0n", .file "2".toUTF8, rfl, rfl, by decide +kernel, by decide +kernel, hway,
      fun h => absurd h Bool.false_ne_true⟩
  have hflat : Documented "./connections" (.directory shelf) ["b.0n"] :=
    ⟨[], "b.0n", .file "1".toUTF8, rfl, rfl, by decide +kernel, by decide +kernel,
      fun front hfront => hway front (hfront.trans List.nil_prefix),
      fun h => absurd h Bool.false_ne_true⟩
  exact ⟨wellFormed_shelf, hentries, places, hrun, (hmem _).mpr hdeep, (hmem _).mpr hflat, result,
    hresult⟩

/-! ### A path that is too long -/

/-- As many slashes as are asked for. -/
def slashes (n : Nat) : String := String.ofList (List.replicate n '/')

theorem parts_slashes (n : Nat) : PathName.parts (slashes n) = List.replicate (n + 1) "" := by
  have hcut : Text.cutAt '/' (List.replicate n '/') = List.replicate (n + 1) [] := by
    induction n with
    | zero => rfl
    | succ n ih => rw [List.replicate_succ, Text.cutAt, if_pos rfl, ih]; rfl
  rw [PathName.parts, slashes, String.toList_ofList, hcut, List.map_replicate]

theorem utf8ByteSize_slashes (n : Nat) : (slashes n).utf8ByteSize = n := by
  induction n with
  | zero => rfl
  | succ n ih =>
    rw [slashes] at ih ⊢
    rw [List.replicate_succ, String.ofList_cons, String.utf8ByteSize_append, ih]
    exact Nat.add_comm 1 n

/-- Slashes behind a point stand for the working directory, as long as there are not too many. -/
theorem entries_slashes {n : Nat} (hshort : n < 4094) (entries : Fields Node) :
    (FileSystem.mk (.directory entries) []).entries ("./" ++ slashes n) = .ok entries := by
  have hread : PathName.ofText ("./" ++ slashes n) = ⟨.here, List.replicate (n + 1) ""⟩ := by
    apply PathName.ofText_here
    rw [show "./" ++ slashes n = "." ++ "/" ++ slashes n from rfl, PathName.parts_append_slash,
      parts_slashes]
    rfl
  have hsteps : (PathName.ofText ("./" ++ slashes n)).steps = [] := by
    rw [hread, PathName.steps]
    simp
  have hlength : tooLong ("./" ++ slashes n) = false := by
    have hpoint : "./".utf8ByteSize = 2 := by decide
    rw [tooLong, decide_eq_false_iff_not, String.utf8ByteSize_append, utf8ByteSize_slashes, hpoint,
      maxPath]
    omega
  have hleads : (FileSystem.mk (.directory entries) []).Leads ("./" ++ slashes n)
      (.directory entries) := by
    refine ⟨⟨[], ?_, rfl⟩, by simp, by simp [slashes]⟩
    rw [hsteps, hread]
    rfl
  obtain ⟨place, hlocate⟩ := hleads.locate hlength fun _ => rfl
  rw [FileSystem.entries, hlocate]

/-- A working directory that holds a directory with the name of a document. -/
def cramped : FileSystem := ⟨.directory [("d.0n", .directory [])], []⟩

/-- **There can be a report on a directory.**  There is no file in the working directory.  Seen
    through the longest path of the working directory, the directory in it is taken for a
    document that cannot be read. -/
theorem report_without_file :
    (Node.directory [("d.0n", .directory [])]).WellFormed ∧
      cramped.entries ("./" ++ slashes 4093) = .ok [("d.0n", .directory [])] ∧
      (∀ place content,
        (Node.directory [("d.0n", .directory [])]).at? place ≠ some (.file content)) ∧
      ∃ report, (reportsBelow ("./" ++ slashes 4093)).run cramped = (.ok [report], cramped) := by
  have hentries : cramped.entries ("./" ++ slashes 4093) = .ok [("d.0n", .directory [])] :=
    entries_slashes (by decide) _
  have hname : IsDiskName "d.0n" := by decide +kernel
  refine ⟨?_, hentries, ?_, ?_⟩
  · refine .directory (List.nodup_singleton _) (by decide +kernel) ?_
    intro entry h
    obtain rfl := List.mem_singleton.mp h
    exact .directory List.nodup_nil (by decide) fun _ h => absurd h List.not_mem_nil
  · intro place content hfile
    cases place with
    | nil => cases hfile
    | cons name rest =>
      rw [Node.at?, Fields.get?_cons] at hfile
      split_ifs at hfile
      · cases rest <;> cases hfile
      · cases hfile
  · have hlong : tooLong (PathName.join ("./" ++ slashes 4093) "d.0n") = true := by
      have hsize := PathName.utf8ByteSize_le_join ("./" ++ slashes 4093) hname.toIsEntryName
      have hparts : "./".utf8ByteSize = 2 ∧ "d.0n".utf8ByteSize = 4 := by decide
      rw [String.utf8ByteSize_append, utf8ByteSize_slashes, hparts.1, hparts.2] at hsize
      rw [tooLong, decide_eq_true_iff, maxPath]
      omega
    have hdocument : isFileName "d.0n" = true := by decide +kernel
    rw [run_reportsBelow hentries, directoryReports_eq_flatMap, inNameOrder,
      List.mergeSort_singleton, List.flatMap_singleton, nodeReports, if_pos hlong, if_pos hdocument]
    exact ⟨_, rfl⟩

end Store
end FlowDocs
