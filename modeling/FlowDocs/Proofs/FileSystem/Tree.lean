/-
  FlowDocs/Proofs/FileSystem/Tree.lean
  ====================================
  **Changing a tree at one place.**

  Putting a node in or taking one out concerns one place.  The new node is found where it
  was put, and as long as no directory is replaced or taken out every directory of the tree
  stays one — which is all that a walk through the tree relies on.
-/
import FlowDocs.FileSystem.Tree

namespace FlowDocs

namespace Node

theorem at?_append (node : Node) (front back : List String) :
    node.at? (front ++ back) = (node.at? front).bind fun below => below.at? back := by
  induction front generalizing node with
  | nil => rw [List.nil_append, at?]; rfl
  | cons name front ih =>
    cases node with
    | file content => rfl
    | directory entries =>
      rw [List.cons_append, at?, at?]
      cases Fields.get? entries name with
      | none => rfl
      | some below => exact ih below

/-- The new node is where it was put, if there is a directory to hold it. -/
theorem at?_put_self {root : Node} {place : List String} {entries : List (String × Node)}
    (h : root.at? place = some (.directory entries)) (name : String) (new : Node) :
    (put new (place ++ [name]) root).at? (place ++ [name]) = some new := by
  induction place generalizing root with
  | nil =>
    obtain rfl : root = .directory entries := Option.some.inj h
    rw [List.nil_append, put, put, at?, Fields.get?_set, if_pos rfl]
    rfl
  | cons step place ih =>
    cases root with
    | file content => cases h
    | directory outer =>
      rw [at?] at h
      obtain ⟨below, hbelow, hrest⟩ := Option.bind_eq_some_iff.mp h
      rw [List.cons_append, put, hbelow, at?, Fields.get?_set, if_pos rfl]
      exact ih hrest

/-! ### Directories that stay -/

def HasDirectory (root : Node) (place : List String) : Prop :=
  ∃ entries, root.at? place = some (.directory entries)

/-- Every directory of the one tree is a directory of the other. -/
def KeepsDirectories (root root' : Node) : Prop :=
  ∀ place, root.HasDirectory place → root'.HasDirectory place

theorem KeepsDirectories.trans {a b c : Node} (hab : a.KeepsDirectories b)
    (hbc : b.KeepsDirectories c) : a.KeepsDirectories c :=
  fun place h => hbc place (hab place h)

theorem hasDirectory_cons {entries : List (String × Node)} {name : String} {rest : List String} :
    HasDirectory (.directory entries) (name :: rest)
      ↔ ∃ below, Fields.get? entries name = some below ∧ below.HasDirectory rest := by
  simp only [HasDirectory, at?, Option.bind_eq_some_iff]
  constructor
  · rintro ⟨inner, below, hget, hbelow⟩
    exact ⟨below, hget, inner, hbelow⟩
  · rintro ⟨below, hget, inner, hbelow⟩
    exact ⟨inner, below, hget, hbelow⟩

theorem hasDirectory_nil (entries : List (String × Node)) : HasDirectory (.directory entries) [] :=
  ⟨entries, by rw [at?]⟩

theorem not_hasDirectory_file (content : ByteArray) (place : List String) :
    ¬ HasDirectory (.file content) place := by
  rintro ⟨entries, h⟩
  cases place <;> cases h

/-- A tree that holds a directory anywhere is one itself. -/
theorem HasDirectory.root {root : Node} {place : List String} (h : root.HasDirectory place) :
    root.HasDirectory [] := by
  cases root with
  | file content => exact absurd h (not_hasDirectory_file content place)
  | directory entries => exact hasDirectory_nil entries

/-- It is enough to look at the entries one by one. -/
theorem keepsDirectories_of_entries {entries entries' : List (String × Node)}
    (h : ∀ name below, Fields.get? entries name = some below → ∀ rest, below.HasDirectory rest →
      ∃ below', Fields.get? entries' name = some below' ∧ below'.HasDirectory rest) :
    KeepsDirectories (.directory entries) (.directory entries') := by
  intro place hplace
  cases place with
  | nil => exact hasDirectory_nil entries'
  | cons name rest =>
    obtain ⟨below, hget, hbelow⟩ := hasDirectory_cons.mp hplace
    exact hasDirectory_cons.mpr (h name below hget rest hbelow)

/-- One entry may change as long as it keeps its own directories. -/
theorem keepsDirectories_set {entries : List (String × Node)} {name : String} {new : Node}
    (h : ∀ below, Fields.get? entries name = some below → below.KeepsDirectories new) :
    KeepsDirectories (.directory entries) (.directory (Fields.set entries name new)) := by
  apply keepsDirectories_of_entries
  intro other below hget rest hbelow
  rw [Fields.get?_set]
  by_cases hother : other = name
  · subst hother
    exact ⟨new, if_pos rfl, h below hget rest hbelow⟩
  · exact ⟨below, (if_neg hother).trans hget, hbelow⟩

/-- Putting a node where there is no directory. -/
theorem keepsDirectories_put {root : Node} {place : List String} (h : ¬ root.HasDirectory place)
    (new : Node) : root.KeepsDirectories (put new place root) := by
  induction place generalizing root with
  | nil => exact fun place hplace => absurd hplace.root h
  | cons step place ih =>
    cases root with
    | file content => exact fun _ hplace => hplace
    | directory entries =>
      apply keepsDirectories_set
      intro below hget
      rw [hget]
      exact ih fun hinner => h (hasDirectory_cons.mpr ⟨below, hget, hinner⟩)

/-- Taking a node out where there is no directory. -/
theorem keepsDirectories_take {root : Node} {place : List String} (h : ¬ root.HasDirectory place) :
    root.KeepsDirectories (take place root) := by
  fun_induction take place root with
  | case1 name entries =>
    apply keepsDirectories_of_entries
    intro other below hget rest hbelow
    rw [Fields.get?_erase]
    by_cases hother : other = name
    · subst hother
      exact absurd (hasDirectory_cons.mpr ⟨below, hget, hbelow.root⟩) h
    · exact ⟨below, (if_neg hother).trans hget, hbelow⟩
  | case2 name rest entries hlonger below hget ih =>
    apply keepsDirectories_set
    intro other hother
    obtain rfl : other = below := Option.some.inj (hother.symm.trans hget)
    exact ih fun hinner => h (hasDirectory_cons.mpr ⟨other, hget, hinner⟩)
  | case3 => exact fun _ hplace => hplace
  | case4 => exact fun _ hplace => hplace
  | case5 => exact fun _ hplace => hplace

/-- Taking a node out makes no directory. -/
theorem hasDirectory_of_take {root : Node} {place other : List String}
    (h : (take place root).HasDirectory other) : root.HasDirectory other := by
  fun_induction take place root generalizing other with
  | case1 name entries =>
    cases other with
    | nil => exact hasDirectory_nil entries
    | cons step rest =>
      obtain ⟨below, hget, hbelow⟩ := hasDirectory_cons.mp h
      rw [Fields.get?_erase] at hget
      split at hget
      · cases hget
      · exact hasDirectory_cons.mpr ⟨below, hget, hbelow⟩
  | case2 name rest entries hlonger below hget ih =>
    cases other with
    | nil => exact hasDirectory_nil entries
    | cons step more =>
      obtain ⟨inner, hinner, hbelow⟩ := hasDirectory_cons.mp h
      rw [Fields.get?_set] at hinner
      split at hinner
      · rename_i hstep
        obtain rfl := hstep
        obtain rfl := Option.some.inj hinner
        exact hasDirectory_cons.mpr ⟨below, hget, ih hbelow⟩
      · exact hasDirectory_cons.mpr ⟨inner, hinner, hbelow⟩
  | case3 => exact h
  | case4 => exact h
  | case5 => exact h

end Node
end FlowDocs
