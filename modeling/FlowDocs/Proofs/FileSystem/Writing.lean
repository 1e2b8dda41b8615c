/-
  FlowDocs/Proofs/FileSystem/Writing.lean
  =======================================
  **What has been written can be read.**

  Work on a file system succeeds step by step, each step on what the one before left.  A
  successful write ends with the temporary file in the target's place, and that file holds
  the whole content.
-/
import FlowDocs.FileSystem.Disk
import FlowDocs.Proofs.FileSystem.Files

namespace FlowDocs

theorem fromUTF8?_toUTF8 (text : String) : String.fromUTF8? text.toUTF8 = some text := by
  rw [String.toUTF8_eq_toByteArray, String.fromUTF8?, dif_pos text.isValidUTF8]
  rfl

namespace Disk

variable {α β : Type} {fs fs' : FileSystem}

theorem run_bind (work : Disk α) (next : α → Disk β) (fs : FileSystem) :
    (work >>= next).run fs = ExceptT.bindCont next (work.run fs).1 (work.run fs).2 := rfl

theorem run_bind_of_ok {work : Disk α} {next : α → Disk β} {value : α} {between : FileSystem}
    (h : work.run fs = (.ok value, between)) :
    (work >>= next).run fs = (next value).run between := by
  rw [run_bind, h]
  rfl

theorem run_bind_of_error {work : Disk α} {next : α → Disk β} {failure : Failure}
    {between : FileSystem} (h : work.run fs = (.error failure, between)) :
    (work >>= next).run fs = (.error failure, between) := by
  rw [run_bind, h]
  rfl

/-- What is read of the file system is the file system. -/
theorem run_get_bind (next : FileSystem → Disk β) (fs : FileSystem) :
    (get >>= next).run fs = (next fs).run fs := rfl

/-- A sequence succeeds if its parts do, one after the other. -/
theorem run_bind_eq_ok {work : Disk α} {next : α → Disk β} {result : β} :
    (work >>= next).run fs = (.ok result, fs') ↔
      ∃ value between, work.run fs = (.ok value, between) ∧
        (next value).run between = (.ok result, fs') := by
  rw [run_bind]
  rcases work.run fs with ⟨failure | value, between⟩
  · constructor
    · intro h
      cases h
    · rintro ⟨value, between, h, -⟩
      cases h
  · constructor
    · exact fun h => ⟨value, between, rfl, h⟩
    · rintro ⟨value, between, h, hnext⟩
      cases h
      exact hnext

/-- A sequence fails in its first part, or in the second on what the first has left. -/
theorem run_bind_eq_error {work : Disk α} {next : α → Disk β} {failure : Failure} :
    (work >>= next).run fs = (.error failure, fs') ↔
      work.run fs = (.error failure, fs') ∨
        ∃ value between, work.run fs = (.ok value, between) ∧
          (next value).run between = (.error failure, fs') := by
  rw [run_bind]
  rcases work.run fs with ⟨cause | value, between⟩
  · constructor
    · exact fun h => Or.inl (by cases h; rfl)
    · rintro (h | ⟨value, between, h, -⟩)
      · cases h
        rfl
      · cases h
  · constructor
    · exact fun h => Or.inr ⟨value, between, rfl, h⟩
    · rintro (h | ⟨value, between, h, hnext⟩)
      · cases h
      · cases h
        exact hnext

theorem query_eq_ok {attempt : Attempt} {path : String}
    {read : FileSystem → Except OsError α} {value : α}
    (h : (query attempt path read).run fs = (.ok value, fs')) : read fs = .ok value ∧ fs' = fs := by
  obtain ⟨seen, between, hget, hread⟩ := run_bind_eq_ok.mp h
  cases hget
  split at hread
  · rename_i found hfound
    cases hread
    exact ⟨hfound, rfl⟩
  · cases hread

theorem run_query (attempt : Attempt) (path : String) (read : FileSystem → Except OsError α)
    (fs : FileSystem) :
    (query attempt path read).run fs = ((read fs).mapError (Failure.io attempt path), fs) := by
  rw [query, run_get_bind]
  cases read fs with
  | error cause => rfl
  | ok value => rfl

theorem change_eq_ok {attempt : Attempt} {path : String}
    {step : FileSystem → Except OsError FileSystem}
    (h : (change attempt path step).run fs = (.ok (), fs')) : step fs = .ok fs' := by
  obtain ⟨after, between, hquery, hset⟩ := run_bind_eq_ok.mp h
  cases hset
  exact (query_eq_ok hquery).1

/-- A change that fails is none. -/
theorem change_eq_error {attempt : Attempt} {path : String} {failure : Failure}
    {step : FileSystem → Except OsError FileSystem}
    (h : (change attempt path step).run fs = (.error failure, fs')) : fs' = fs := by
  rcases run_bind_eq_error.mp h with hquery | ⟨after, between, -, hset⟩
  · rw [query, run_get_bind] at hquery
    split at hquery
    · cases hquery
    · cases hquery
      rfl
  · cases hset

theorem replace_eq_ok {temporary path : String}
    (h : (replace temporary path).run fs = (.ok (), fs')) :
    fs.renameFile temporary path = .ok fs' := by
  obtain ⟨seen, between, hget, hrest⟩ := run_bind_eq_ok.mp h
  cases hget
  split at hrest
  · rename_i after hafter
    cases hrest
    exact hafter
  · -- what is left fails, whether the temporary file can be removed or not
    split at hrest
    · cases hrest
    · cases hrest

/-- A file that could not take the place of another is removed if that is possible. -/
theorem replace_eq_error {temporary path : String} {failure : Failure} {after : FileSystem}
    (h : (replace temporary path).run fs = (.error failure, fs'))
    (hremove : fs.removeFile temporary = .ok after) : fs' = after := by
  rw [replace, run_get_bind] at h
  split at h
  · cases h
  · rw [hremove] at h
    cases h
    rfl

/-- A successful write makes the temporary file and lets it take the target's place. -/
theorem writeWhole_eq_ok {path : String} {content : ByteArray}
    (h : (writeWhole path content).run fs = (.ok (), fs')) :
    ∃ temporary before between, temporaryFor? path = some temporary ∧
      (createParent path).run fs = (.ok (), before) ∧
      before.createFile temporary content = .ok between ∧
      between.renameFile temporary path = .ok fs' := by
  obtain ⟨⟨⟩, before, hparent, hwrite⟩ := run_bind_eq_ok.mp h
  split at hwrite
  · cases hwrite
  · rename_i temporary htemporary
    obtain ⟨⟨⟩, between, hcreate, hreplace⟩ := run_bind_eq_ok.mp hwrite
    exact ⟨temporary, before, between, htemporary, hparent, change_eq_ok hcreate,
      replace_eq_ok hreplace⟩

theorem readBytes_of_writeWhole {path : String} {content : ByteArray}
    (h : (writeWhole path content).run fs = (.ok (), fs')) : fs'.readBytes path = .ok content := by
  obtain ⟨temporary, before, between, -, -, hcreate, hrename⟩ := writeWhole_eq_ok h
  obtain ⟨place, htemporary⟩ := FileSystem.locate_of_createFile hcreate
  obtain ⟨place, hpath⟩ := FileSystem.locate_of_renameFile hrename htemporary
  rw [FileSystem.readBytes, hpath]

theorem readText_of_writeText {path text : String}
    (h : (writeText path text).run fs = (.ok (), fs')) : fs'.readText path = .ok text := by
  rw [FileSystem.readText, readBytes_of_writeWhole h]
  simp only [fromUTF8?_toUTF8]

end Disk
end FlowDocs
