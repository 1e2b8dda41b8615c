/-
  FlowDocs/Proofs/Document/Saving.lean
  ====================================
  **A saved document is read back as it was stamped.**

  The stamp is the one thing that saving changes: it sets a single field of the envelope,
  in its place if it has one, and neither the kind nor the version nor any other field of
  the document moves.  So the stamped document is as readable as the document was and its
  report is the same.  What is written is its text, and reading undoes writing.  What was
  read from a file is readable but for doubles, so it can be saved and read again.
-/
import FlowDocs.Document.File
import FlowDocs.Proofs.FileSystem.Writing
import FlowDocs.Proofs.Json.Parsed
import FlowDocs.Proofs.Json.RoundTrip

namespace FlowDocs

namespace Document

variable {now : String} {document : Json}

/-! ### The stamp -/

theorem stamp_of_no_envelope
    (h : ∀ envelope, document.field? envelopeName ≠ some (.obj envelope)) :
    stamp now document = document := by
  unfold stamp
  split
  · split
    · rename_i envelope hget
      exact absurd hget (h envelope)
    · rfl
  · rfl

theorem stamp_of_envelope {fields envelope : Json.Object}
    (h : Fields.get? fields envelopeName = some (.obj envelope)) :
    stamp now (.obj fields)
      = .obj (Fields.set fields envelopeName
          (.obj (Fields.set envelope "updated" (.str now)))) := by
  rw [stamp]
  simp only [h]

/-- Either there is no envelope to stamp, or the document is an object with one. -/
theorem stamp_cases (now : String) (document : Json) :
    stamp now document = document ∨
      ∃ fields envelope, document = .obj fields ∧
        Fields.get? fields envelopeName = some (.obj envelope) ∧
        stamp now document = .obj (Fields.set fields envelopeName
          (.obj (Fields.set envelope "updated" (.str now)))) := by
  by_cases h : ∃ envelope, document.field? envelopeName = some (.obj envelope)
  · obtain ⟨envelope, henvelope⟩ := h
    cases document with
    | obj fields => exact Or.inr ⟨fields, envelope, rfl, henvelope, stamp_of_envelope henvelope⟩
    | _ => cases henvelope
  · exact Or.inl (stamp_of_no_envelope (not_exists.mp h))

/-- The stamp concerns the envelope alone. -/
theorem field?_stamp (now : String) (document : Json) {name : String} (h : name ≠ envelopeName) :
    (stamp now document).field? name = document.field? name := by
  rcases stamp_cases now document with hsame | ⟨fields, envelope, rfl, -, hstamp⟩
  · rw [hsame]
  · rw [hstamp, Json.field?, Fields.get?_set, if_neg h, Json.field?]

theorem readable_stamp {bound : Nat} (h : Json.Readable bound document) (now : String) :
    Json.Readable bound (stamp now document) := by
  rcases stamp_cases now document with hsame | ⟨fields, envelope, rfl, hget, hstamp⟩
  · rwa [hsame]
  · rw [hstamp]
    obtain ⟨bound, rfl⟩ := Nat.exists_eq_add_one_of_ne_zero (Nat.ne_zero_of_lt h.depth)
    have henvelope := (Json.readable_obj.mp h).2 _ (Fields.mem_of_get? hget)
    obtain ⟨bound, rfl⟩ := Nat.exists_eq_add_one_of_ne_zero (Nat.ne_zero_of_lt henvelope.depth)
    exact h.set (henvelope.set (Json.readable_str now))

/-! ### The report -/

/-- The report looks at the envelope's kind and version and at fields beside the envelope. -/
theorem validate_congr {document document' : Json} {envelope envelope' : Json}
    (hother : ∀ name, name ≠ envelopeName → document'.field? name = document.field? name)
    (henvelope : envelope? document = some envelope)
    (henvelope' : envelope? document' = some envelope')
    (hkind : envelope'.field? "type" = envelope.field? "type")
    (hversion : envelope'.field? "version" = envelope.field? "version") :
    validate document' = validate document := by
  have hfields : document'.field? "service" = document.field? "service" ∧
      document'.field? "auth" = document.field? "auth" ∧
      document'.field? "steps" = document.field? "steps" ∧
      document'.field? "components" = document.field? "components" ∧
      document'.field? "target" = document.field? "target" := by
    refine ⟨?_, ?_, ?_, ?_, ?_⟩ <;> exact hother _ (by decide)
  obtain ⟨hservice, hauth, hsteps, hcomponents, htarget⟩ := hfields
  have hproblems : ∀ kind, bodyProblems document' kind = bodyProblems document kind := by
    rintro (_ | kind)
    · rfl
    · cases kind <;> simp only [bodyProblems, connectionProblems, workflowProblems,
        snapshotProblems, hservice, hauth, hsteps, hcomponents]
  have hwarnings : ∀ kind, bodyWarnings document' kind = bodyWarnings document kind := by
    rintro (_ | kind)
    · rfl
    · cases kind <;> simp only [bodyWarnings, htarget]
  simp only [validate, henvelope, henvelope', hkind, hversion, hproblems, hwarnings]

theorem validate_stamp (now : String) (document : Json) :
    validate (stamp now document) = validate document := by
  rcases stamp_cases now document with hsame | ⟨fields, envelope, rfl, hget, hstamp⟩
  · rw [hsame]
  · rw [hstamp]
    have hbefore : envelope? (.obj fields) = some (.obj envelope) := by
      rw [envelope?, Json.field?, hget]
      rfl
    have hafter : envelope? (.obj (Fields.set fields envelopeName
        (.obj (Fields.set envelope "updated" (.str now)))))
          = some (.obj (Fields.set envelope "updated" (.str now))) := by
      rw [envelope?, Json.field?, Fields.get?_set, if_pos rfl]
      rfl
    refine validate_congr ?_ hbefore hafter ?_ ?_
    · intro name hname
      rw [← hstamp]
      exact field?_stamp now _ hname
    · rw [Json.field?, Fields.get?_set, if_neg (by decide), Json.field?]
    · rw [Json.field?, Fields.get?_set, if_neg (by decide), Json.field?]

/-! ### Reading and saving -/

/-- A value is read from a file if it is what the text there is read as; the file system
    stays as it is. -/
theorem readValue_eq_ok_iff {fs fs' : FileSystem} {path : String} :
    (readValue path).run fs = (.ok document, fs') ↔
      fs' = fs ∧ ∃ text, fs.readText path = .ok text ∧ Json.parse text = .ok document := by
  constructor
  · intro h
    obtain ⟨text, between, hread, hparse⟩ := Disk.run_bind_eq_ok.mp h
    obtain ⟨htext, rfl⟩ := Disk.query_eq_ok hread
    split at hparse
    · rename_i found hfound
      cases hparse
      exact ⟨rfl, text, htext, hfound⟩
    · cases hparse
  · rintro ⟨rfl, text, htext, hparse⟩
    have hread : (Disk.readText path).run fs' = (.ok text, fs') := by
      rw [Disk.readText, Disk.run_query, htext]
      rfl
    rw [readValue, Disk.run_bind_of_ok hread, hparse]
    rfl

/-- A document from a file could be in memory and nests no deeper than can be read back. -/
theorem within_of_readValue {fs fs' : FileSystem} {path : String}
    (h : (readValue path).run fs = (.ok document, fs')) : document.Within Json.maxDepth := by
  obtain ⟨-, text, -, hparse⟩ := readValue_eq_ok_iff.mp h
  exact Json.within_of_parse hparse

theorem save_eq_ok {fs fs' : FileSystem} {path : String} {stamped : Json}
    (h : (save now document path).run fs = (.ok stamped, fs')) :
    stamped = stamp now document ∧
      (Disk.writeText path (stamp now document).pretty).run fs = (.ok (), fs') := by
  obtain ⟨⟨⟩, between, hwrite, hpure⟩ := Disk.run_bind_eq_ok.mp h
  cases hpure
  exact ⟨rfl, hwrite⟩

theorem parse_of_save {fs fs' : FileSystem} {path : String} {stamped : Json}
    (hreadable : Json.Readable Json.maxDepth document)
    (hsave : (save now document path).run fs = (.ok stamped, fs')) :
    ∃ text, fs'.readText path = .ok text ∧ Json.parse text = .ok stamped := by
  obtain ⟨rfl, hwrite⟩ := save_eq_ok hsave
  exact ⟨_, Disk.readText_of_writeText hwrite, Json.parse_pretty (readable_stamp hreadable now)⟩

/-- **A document that was read can be saved and read again**, if there are no doubles in it.
    What is read then is the document with its new stamp, of which the same can be said. -/
theorem readValue_of_save_read {fs between fs' : FileSystem} {source path : String}
    {stamped : Json} (hread : (readValue source).run fs = (.ok document, between))
    (hfree : document.FloatFree)
    (hsave : (save now document path).run between = (.ok stamped, fs')) :
    (readValue path).run fs' = (.ok stamped, fs') ∧ stamped = stamp now document ∧
      stamped.FloatFree := by
  have hreadable : Json.Readable Json.maxDepth document := ⟨within_of_readValue hread, hfree⟩
  obtain ⟨hstamped, -⟩ := save_eq_ok hsave
  refine ⟨readValue_eq_ok_iff.mpr ⟨rfl, parse_of_save hreadable hsave⟩, hstamped, ?_⟩
  rw [hstamped]
  exact (readable_stamp hreadable now).floatFree

/-- **Saving and reading back.**  Take any document in memory without doubles that nests no
    deeper than the reader follows.  The text of its file is read as the stamped document.
    The stamp concerns the field `updated` of an envelope that is an object: the field keeps
    its place, or comes last if it is new.  The report does not change. -/
theorem read_back_of_save {fs fs' : FileSystem} {path : String} {stamped : Json}
    (hwell : document.WellFormed) (hfree : document.FloatFree) (hdepth : document.depth ≤ 127)
    (hsave : (save now document path).run fs = (.ok stamped, fs')) :
    (∃ text, fs'.readText path = .ok text ∧ Json.parse text = .ok stamped) ∧
    ((∀ envelope, document.field? envelopeName ≠ some (.obj envelope)) → stamped = document) ∧
    (∀ front envelope back,
      document = .obj (front ++ (envelopeName, .obj envelope) :: back) →
      ∃ envelope', stamped = .obj (front ++ (envelopeName, .obj envelope') :: back) ∧
        (∀ before old after, envelope = before ++ ("updated", old) :: after →
          envelope' = before ++ ("updated", .str now) :: after) ∧
        ("updated" ∉ Fields.names envelope →
          envelope' = envelope ++ [("updated", .str now)])) ∧
    validate stamped = validate document := by
  have hread := parse_of_save ⟨⟨hwell, hdepth⟩, hfree⟩ hsave
  obtain ⟨rfl, -⟩ := save_eq_ok hsave
  refine ⟨hread, ?_, ?_, validate_stamp now document⟩
  · exact stamp_of_no_envelope
  · rintro front envelope back rfl
    have hnodup := (Json.distinct_obj.mp hwell.distinct).1
    have henvelope : (Json.obj envelope).Distinct := (Json.distinct_obj.mp hwell.distinct).2
      (envelopeName, .obj envelope) (List.mem_append_right front List.mem_cons_self)
    have hget := (Fields.get?_eq_some_iff hnodup).mpr
      (List.mem_append_right front (List.mem_cons_self : (envelopeName, Json.obj envelope) ∈ _))
    rw [stamp_of_envelope hget, Fields.set_middle (Fields.not_mem_front hnodup)]
    refine ⟨_, rfl, ?_, ?_⟩
    · rintro before old after rfl
      exact Fields.set_middle (Fields.not_mem_front (Json.distinct_obj.mp henvelope).1) _
    · intro hnew
      exact Fields.set_of_not_mem hnew _

/-- A document that has been saved before, with the least integer and a text to escape. -/
def draft : Json :=
  .obj
    [("least", .num (.integer (-9223372036854775808))),
     (envelopeName, .obj [("updated", .str "dawn"), ("type", .str "workflow")]),
     ("note", .arr [.str "\"a\"\n\x01é", .obj [], .null])]

/-- The draft with the new time in the place of the old one. -/
def stampedDraft : Json :=
  .obj
    [("least", .num (.integer (-9223372036854775808))),
     (envelopeName, .obj [("updated", .str "noon"), ("type", .str "workflow")]),
     ("note", .arr [.str "\"a\"\n\x01é", .obj [], .null])]

/-- A directory `desk` to work in, with nothing in it. -/
def desk : FileSystem := ⟨.directory [("desk", .directory [])], ["desk"]⟩

theorem read_back_of_save_draft :
    ∃ fs', (save "noon" draft "d.0n").run desk = (.ok stampedDraft, fs') ∧
      (∃ text, fs'.readText "d.0n" = .ok text ∧ Json.parse text = .ok stampedDraft) ∧
      validate stampedDraft = validate draft := by
  have hsave : (save "noon" draft "d.0n").run desk
      = (.ok stampedDraft, ((save "noon" draft "d.0n").run desk).2) := Prod.ext rfl rfl
  obtain ⟨hread, -, -, hreport⟩ :=
    read_back_of_save (by decide) (by decide) (by decide) hsave
  exact ⟨_, hsave, hread, hreport⟩

end Document
end FlowDocs
