/-
  FlowDocs/Proofs/Lookup/WrittenPaths.lean
  ========================================
  **Paths lead where their segments say.**

  A path is written as a first segment and further ones, each behind a point or, if
  it is an index, in brackets.  A key may hold brackets of its own, as long as there
  is no index in them: an opening bracket is then never closed over digits alone, not
  even by the segments that follow, since these start with a point or a bracket.  So
  the segments of the text are those that were written, and looking the path up is
  walking down by them: by name in an object, by position in an array.
-/
import FlowDocs.Proofs.Lookup.Segments

namespace FlowDocs.Lookup

/-! ### Keys and indices -/

/-- An index: ASCII digits, one at least.  It may start with zeros. -/
structure IsIndex (digits : List Char) : Prop where
  ne_nil : digits ≠ []
  digits : ∀ c ∈ digits, c.isDigit = true

/-- The text has an index in brackets in it, in the digits of whatever script. -/
def HoldsIndex (text : List Char) : Prop :=
  ∃ front digits back, digits ≠ [] ∧ (∀ c ∈ digits, Text.isDecimalDigit c = true) ∧
    text = front ++ '[' :: (digits ++ ']' :: back)

/-- A text that can stand in a path as it is: without points and without an index in
    brackets. -/
structure IsKey (text : List Char) : Prop where
  point : '.' ∉ text
  index : ¬ HoldsIndex text

theorem IsIndex.not_mem {digits : List Char} (h : IsIndex digits) {c : Char}
    (hc : c.isDigit = false) : c ∉ digits := by
  intro hmem
  simp [h.digits c hmem] at hc

theorem HoldsIndex.mem {text : List Char} (h : HoldsIndex text) : '[' ∈ text ∧ ']' ∈ text := by
  rcases h with ⟨front, digits, back, -, -, rfl⟩
  simp

theorem IsIndex.isKey {digits : List Char} (h : IsIndex digits) : IsKey digits :=
  ⟨h.not_mem rfl, fun hindex => h.not_mem rfl hindex.mem.1⟩

theorem HoldsIndex.cons {text : List Char} (h : HoldsIndex text) (c : Char) :
    HoldsIndex (c :: text) := by
  rcases h with ⟨front, digits, back, hne, hdigits, rfl⟩
  exact ⟨c :: front, digits, back, hne, hdigits, rfl⟩

/-! ### Paths as they are written -/

/-- A segment of a path behind the first, as it is written: a key or an index behind a
    point, or an index in brackets. -/
inductive Written where
  | key (name : List Char) (isKey : IsKey name)
  | dotted (digits : List Char) (isIndex : IsIndex digits)
  | bracketed (digits : List Char) (isIndex : IsIndex digits)

namespace Written

/-- The segment itself. -/
def segment : Written → List Char
  | key name _ => name
  | dotted digits _ => digits
  | bracketed digits _ => digits

def text : Written → List Char
  | key name _ => '.' :: name
  | dotted digits _ => '.' :: digits
  | bracketed digits _ => '[' :: (digits ++ [']'])

end Written

/-- A path as it is written.  The first segment stands bare and is not empty; an index is
    a key too. -/
structure WrittenPath where
  first : List Char
  rest : List Written
  isKey : IsKey first
  ne_nil : first ≠ []

namespace WrittenPath

def segments (path : WrittenPath) : List (List Char) :=
  path.first :: path.rest.map Written.segment

def text (path : WrittenPath) : String :=
  String.ofList (path.first ++ path.rest.flatMap Written.text)

end WrittenPath

/-! ### Walking down -/

/-- What a segment leads to inside a value: in an object the field of this name, in an
    array the item at this position, which may have a plus in front. -/
inductive Leads : Json → List Char → Json → Prop
  | field {fields : Json.Object} {name : List Char} {inner : Json} :
      Fields.get? fields (String.ofList name) = some inner → Leads (.obj fields) name inner
  | item {items : List Json} {digits : List Char} {inner : Json} :
      IsIndex digits → items[Nat.ofDigitChars 10 digits 0]? = some inner →
      Leads (.arr items) digits inner
  | signed {items : List Json} {digits : List Char} {inner : Json} :
      IsIndex digits → items[Nat.ofDigitChars 10 digits 0]? = some inner →
      Leads (.arr items) ('+' :: digits) inner

/-- The value reached by walking segments down. -/
inductive Walks : Json → List (List Char) → Json → Prop
  | here {value : Json} : Walks value [] value
  | down {value next inner : Json} {segment : List Char} {rest : List (List Char)} :
      Leads value segment next → Walks next rest inner → Walks value (segment :: rest) inner

theorem isIndex_iff {cs : List Char} :
    IsIndex cs ↔ cs ≠ [] ∧ cs.all Char.isDigit = true := by
  constructor
  · intro h
    exact ⟨h.ne_nil, List.all_eq_true.mpr h.digits⟩
  · rintro ⟨hne, hall⟩
    exact ⟨hne, List.all_eq_true.mp hall⟩

/-- The position that digits name, as it is computed. -/
theorem foldl_digits (digits : List Char) :
    digits.foldl (fun n c => n * 10 + (c.toNat - 48)) 0 = Nat.ofDigitChars 10 digits 0 := by
  simp [Nat.ofDigitChars_eq_foldl, Nat.mul_comm]

theorem position?_signed {digits : List Char} {n : Nat} :
    position? (String.ofList ('+' :: digits)) = some n ↔
      IsIndex digits ∧ Nat.ofDigitChars 10 digits 0 = n := by
  simp [position?, foldl_digits, isIndex_iff]

theorem position?_of_ne {c : Char} (hc : c ≠ '+') {cs : List Char} {n : Nat} :
    position? (String.ofList (c :: cs)) = some n ↔
      IsIndex (c :: cs) ∧ Nat.ofDigitChars 10 (c :: cs) 0 = n := by
  rw [← foldl_digits]
  simp [position?, isIndex_iff, hc]

/-- **One step down.**  A segment leads to what it indexes and to nothing else. -/
theorem child_eq_some_iff {value inner : Json} {segment : List Char} :
    child value (String.ofList segment) = some inner ↔ Leads value segment inner := by
  constructor
  · intro h
    cases value with
    | obj fields => exact .field h
    | arr items =>
      rcases Option.bind_eq_some_iff.mp h with ⟨n, hn, hitem⟩
      cases segment with
      | nil => simp [position?] at hn
      | cons c cs =>
        by_cases hc : c = '+'
        · subst hc
          rcases position?_signed.mp hn with ⟨hindex, rfl⟩
          exact .signed hindex hitem
        · rcases (position?_of_ne hc).mp hn with ⟨hindex, rfl⟩
          exact .item hindex hitem
    | _ => simp [child] at h
  · intro h
    cases h with
    | field hget => exact hget
    | item hindex hitem =>
      cases segment with
      | nil => exact absurd rfl hindex.ne_nil
      | cons c cs =>
        have hc : c ≠ '+' := by
          rintro rfl
          exact hindex.not_mem rfl List.mem_cons_self
        have hposition := (position?_of_ne hc).mpr ⟨hindex, rfl⟩
        exact Option.bind_eq_some_iff.mpr ⟨_, hposition, hitem⟩
    | signed hindex hitem =>
      have hposition := position?_signed.mpr ⟨hindex, rfl⟩
      exact Option.bind_eq_some_iff.mpr ⟨_, hposition, hitem⟩

/-- Descending is walking: it is undefined where a segment leads nowhere. -/
theorem descend_eq_some_iff {value inner : Json} {segments : List (List Char)} :
    descend value (segments.map String.ofList) = some inner ↔ Walks value segments inner := by
  induction segments generalizing value with
  | nil =>
    constructor
    · intro h
      cases h
      exact .here
    · intro h
      cases h
      rfl
  | cons segment rest ih =>
    simp only [List.map_cons, descend]
    constructor
    · intro h
      split at h
      · rename_i next hnext
        exact .down (child_eq_some_iff.mp hnext) (ih.mp h)
      · cases h
    · intro h
      cases h with
      | down hleads hwalks =>
        have hnext := child_eq_some_iff.mpr hleads
        simp [hnext, ih.mpr hwalks]

/-! ### The segments of a written path -/

theorem bracketed?_eq_some_iff {cs digits rest : List Char} :
    bracketed? cs = some (digits, rest) ↔
      digits ≠ [] ∧ (∀ c ∈ digits, Text.isDecimalDigit c = true) ∧
        cs = digits ++ ']' :: rest := by
  have hclose : Text.isDecimalDigit ']' = false := by decide
  constructor
  · intro h
    have hall := List.takeWhile_append_dropWhile (p := Text.isDecimalDigit) (l := cs)
    unfold bracketed? at h
    split at h
    · rename_i d ds after htake hdrop
      simp only [Option.some.injEq, Prod.mk.injEq] at h
      rcases h with ⟨rfl, rfl⟩
      refine ⟨List.cons_ne_nil d ds, ?_, by rw [← hall, htake, hdrop]⟩
      rw [← htake]
      intro c hc
      exact List.mem_takeWhile_imp hc
    · cases h
  · rintro ⟨hne, hdigits, rfl⟩
    rcases List.exists_cons_of_ne_nil hne with ⟨d, ds, rfl⟩
    have htake : ((d :: ds) ++ ']' :: rest).takeWhile Text.isDecimalDigit = d :: ds := by
      rw [List.takeWhile_append_of_pos hdigits]
      simp [hclose]
    have hdrop : ((d :: ds) ++ ']' :: rest).dropWhile Text.isDecimalDigit = ']' :: rest := by
      rw [List.dropWhile_append_of_pos hdigits]
      simp [hclose]
    simp only [bracketed?, htake, hdrop]

/-- What can stand behind a segment: the end, a point, or an opening bracket. -/
def EndsSegment (rest : List Char) : Prop :=
  ∀ c ∈ rest.head?, c = '.' ∨ c = '['

theorem EndsSegment.ne_append {rest digits after : List Char} (hrest : EndsSegment rest)
    (hdigits : ∀ c ∈ digits, Text.isDecimalDigit c = true) : rest ≠ digits ++ ']' :: after := by
  rintro rfl
  cases digits with
  | nil => exact absurd (hrest ']' rfl) (by decide)
  | cons d digits =>
    have hdigit := hdigits d List.mem_cons_self
    rcases hrest d rfl with rfl | rfl
    · exact absurd hdigit (by decide)
    · exact absurd hdigit (by decide)

/-- No index in brackets begins in a key and ends behind it. -/
theorem bracketed?_append_eq_none {key rest : List Char} (hkey : ¬ HoldsIndex ('[' :: key))
    (hrest : EndsSegment rest) : bracketed? (key ++ rest) = none := by
  rw [Option.eq_none_iff_forall_ne_some]
  rintro ⟨digits, after⟩ h
  rcases bracketed?_eq_some_iff.mp h with ⟨hne, hdigits, happend⟩
  rcases List.append_eq_append_iff.mp happend with ⟨inner, rfl, hinner⟩ | ⟨inner, rfl, hinner⟩
  · -- the key ends before the bracket is closed
    have hlater : ∀ c ∈ inner, Text.isDecimalDigit c = true :=
      fun c hc => hdigits c (List.mem_append_right key hc)
    exact hrest.ne_append hlater hinner
  · cases inner with
    | nil =>
      have hclosed : rest = [] ++ ']' :: after := hinner.symm
      exact hrest.ne_append (List.forall_mem_nil _) hclosed
    | cons d inner =>
      rcases List.cons.inj hinner with ⟨rfl, -⟩
      exact hkey ⟨[], digits, inner, hne, hdigits, rfl⟩

/-- A key stays as it is, whatever segments follow. -/
theorem dotted_append {key rest : List Char} (hkey : ¬ HoldsIndex key) (hrest : EndsSegment rest) :
    dotted (key ++ rest) = key ++ dotted rest := by
  induction key with
  | nil => rfl
  | cons c key ih =>
    have htail := ih fun h => hkey (h.cons c)
    by_cases hc : c = '['
    · subst hc
      have hopen := bracketed?_append_eq_none hkey hrest
      rw [List.cons_append, dotted_of_not_bracketed? hopen, htail, List.cons_append]
    · rw [List.cons_append, dotted_cons_of_ne hc, htail, List.cons_append]

namespace Written

theorem endsSegment (rest : List Written) : EndsSegment (rest.flatMap text) := by
  intro c hc
  cases rest with
  | nil => cases hc
  | cons written rest =>
    cases written with
    | key name isKey => exact Or.inl (Option.some.inj hc).symm
    | dotted digits isIndex => exact Or.inl (Option.some.inj hc).symm
    | bracketed digits isIndex => exact Or.inr (Option.some.inj hc).symm

theorem isKey (written : Written) : IsKey written.segment := by
  cases written with
  | key name isKey => exact isKey
  | dotted digits isIndex => exact isIndex.isKey
  | bracketed digits isIndex => exact isIndex.isKey

/-- Behind a point or in brackets, a segment comes to stand behind a point. -/
theorem dotted_text_append (written : Written) {rest : List Char} (hrest : EndsSegment rest) :
    Lookup.dotted (written.text ++ rest) = '.' :: (written.segment ++ Lookup.dotted rest) := by
  have hkey := dotted_append written.isKey.index hrest
  cases written with
  | key name isKey =>
    rw [← hkey, ← dotted_cons_of_ne (by decide)]
    rfl
  | dotted digits isIndex =>
    rw [← hkey, ← dotted_cons_of_ne (by decide)]
    rfl
  | bracketed digits isIndex =>
    have hopen : bracketed? (digits ++ ']' :: rest) = some (digits, rest) := by
      rw [bracketed?_eq_some_iff]
      refine ⟨isIndex.ne_nil, ?_, rfl⟩
      intro c hc
      exact Text.isDecimalDigit_of_isDigit (isIndex.digits c hc)
    simp [text, segment, dotted_of_bracketed? hopen]

theorem dotted_flatMap (rest : List Written) :
    Lookup.dotted (rest.flatMap text) = rest.flatMap fun written => '.' :: written.segment := by
  induction rest with
  | nil => simp [Lookup.dotted]
  | cons written rest ih =>
    rw [List.flatMap_cons, dotted_text_append written (endsSegment rest), ih, List.flatMap_cons]
    rfl

theorem cutAt_append_flatMap {first : List Char} (hfirst : '.' ∉ first) (rest : List Written) :
    Text.cutAt '.' (first ++ rest.flatMap fun written => '.' :: written.segment)
      = first :: rest.map segment := by
  induction rest generalizing first with
  | nil => simp [Text.cutAt_of_not_mem hfirst]
  | cons written rest ih =>
    have hrest := ih written.isKey.point
    simp [Text.cutAt_append_cons, Text.cutAt_of_not_mem hfirst, hrest]

end Written

/-- The segments of the text are those that were written. -/
theorem segments_text (path : WrittenPath) :
    segments path.text = path.segments.map String.ofList := by
  have hdotted := dotted_append path.isKey.index (Written.endsSegment path.rest)
  rw [segments, WrittenPath.text, String.toList_ofList, hdotted, Written.dotted_flatMap,
    Written.cutAt_append_flatMap path.isKey.point, WrittenPath.segments]

theorem text_ne_empty (path : WrittenPath) : path.text ≠ "" := by
  intro h
  have hnil : path.first ++ path.rest.flatMap Written.text = [] := String.ofList_eq_empty_iff.mp h
  exact path.ne_nil (List.append_eq_nil_iff.mp hnil).1

theorem inValue_text (root : Json) (path : WrittenPath) :
    inValue root path.text = descend root (path.segments.map String.ofList) := by
  rw [inValue, segments_text]
  split
  · rename_i hnowhere
    rcases hnowhere with rfl | hempty
    · simp [WrittenPath.segments, descend, child]
    · exact absurd hempty (text_ne_empty path)
  · rfl

/-- **A path names what walking down its segments reaches.**  It names nothing where the
    walk ends early: where a name is missing, a position is out of range or no number, or a
    value has nothing inside.  How the indices are written makes no difference, since the
    result depends on the segments alone. -/
theorem inValue_eq_some_iff_walks (root : Json) (path : WrittenPath) :
    (∀ inner, inValue root path.text = some inner ↔ Walks root path.segments inner) ∧
    (inValue root path.text = none ↔ ∀ inner, ¬ Walks root path.segments inner) ∧
    ∀ other : WrittenPath, other.segments = path.segments →
      inValue root other.text = inValue root path.text := by
  have hwalks : ∀ inner, inValue root path.text = some inner ↔ Walks root path.segments inner := by
    intro inner
    rw [inValue_text, descend_eq_some_iff]
  refine ⟨hwalks, ?_, ?_⟩
  · simp only [← hwalks]
    exact Option.eq_none_iff_forall_ne_some
  · intro other hsame
    rw [inValue_text, inValue_text, hsame]

/-- An index behind the key `a[`. -/
def behindBracketKey (index : Written) : WrittenPath where
  first := ['a', '[']
  rest := [index]
  isKey := ⟨by decide, fun hindex => absurd hindex.mem.2 (by decide)⟩
  ne_nil := by decide

/-- A key may end in an opening bracket, and an index may start with zeros and be written
    in brackets or behind a point.  Behind the end of the array there is nothing. -/
theorem inValue_behind_bracket_key :
    let root : Json := .obj [("a[", .arr [.null, .bool true])]
    inValue root "a[[01]" = some (.bool true) ∧ inValue root "a[.01" = some (.bool true) ∧
      inValue root "a[[2]" = none := by
  intro root
  have hone : IsIndex ['0', '1'] := isIndex_iff.mpr ⟨by decide, by decide⟩
  have htwo : IsIndex ['2'] := isIndex_iff.mpr ⟨by decide, by decide⟩
  obtain ⟨hwalks, -, hspelling⟩ :=
    inValue_eq_some_iff_walks root (behindBracketKey (.bracketed ['0', '1'] hone))
  obtain ⟨-, hnowhere, -⟩ :=
    inValue_eq_some_iff_walks root (behindBracketKey (.bracketed ['2'] htwo))
  have hin : inValue root "a[[01]" = some (.bool true) :=
    (hwalks _).mpr (.down (.field rfl) (.down (.item hone rfl) .here))
  have hdotted : inValue root "a[.01" = inValue root "a[[01]" :=
    hspelling (behindBracketKey (.dotted ['0', '1'] hone)) rfl
  have hout : inValue root "a[[2]" = none := by
    refine hnowhere.mpr ?_
    intro inner hwalk
    change Walks (.obj [("a[", .arr [.null, .bool true])]) [['a', '['], ['2']] inner at hwalk
    cases hwalk with
    | down hleads hrest =>
      cases hleads with
      | field hget =>
        cases hget
        cases hrest with
        | down hleads' _ =>
          cases hleads' with
          | item _ hitem => cases hitem
  exact ⟨hin, hdotted.trans hin, hout⟩

end FlowDocs.Lookup
