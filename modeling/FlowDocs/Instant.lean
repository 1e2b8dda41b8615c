/-
  FlowDocs/Instant.lean
  =====================
  **Points in time as text.**

  Documents and templates know time as text in UTC: date, `T`, time of day to the
  millisecond, `Z`.  An instant is counted in milliseconds from the start of 1970.
-/

namespace FlowDocs.Instant

/-- A day of the calendar. -/
structure Day where
  year : Nat
  month : Nat
  day : Nat
deriving DecidableEq, Repr

/-- The day that stands so many days after the first of January 1970.  Years are
    counted from the first of March, so that the leap day comes last; 400 of them
    have 146097 days. -/
def dayOf (days : Nat) : Day :=
  let shifted := days + 719468
  let era := shifted / 146097
  let dayOfEra := shifted % 146097
  let yearOfEra :=
    (dayOfEra - dayOfEra / 1460 + dayOfEra / 36524 - dayOfEra / 146096) / 365
  let dayOfYear := dayOfEra - (365 * yearOfEra + yearOfEra / 4 - yearOfEra / 100)
  let month := (5 * dayOfYear + 2) / 153
  let day := dayOfYear - (153 * month + 2) / 5 + 1
  let year := yearOfEra + era * 400
  if month < 10 then ⟨year, month + 3, day⟩ else ⟨year + 1, month - 9, day⟩

def padded (width n : Nat) : String :=
  let digits := Nat.toDigits 10 n
  String.ofList (List.replicate (width - digits.length) '0' ++ digits)

def text (milliseconds : Nat) : String :=
  let seconds := milliseconds / 1000
  let day := dayOf (seconds / 86400)
  let time := seconds % 86400
  padded 4 day.year ++ "-" ++ padded 2 day.month ++ "-" ++ padded 2 day.day ++ "T" ++
    padded 2 (time / 3600) ++ ":" ++ padded 2 (time / 60 % 60) ++ ":" ++ padded 2 (time % 60) ++
    "." ++ padded 3 (milliseconds % 1000) ++ "Z"

example : dayOf 0 = ⟨1970, 1, 1⟩ := by decide
example : dayOf 11016 = ⟨2000, 2, 29⟩ := by decide
example : dayOf 11017 = ⟨2000, 3, 1⟩ := by decide
example : dayOf 47540 = ⟨2100, 2, 28⟩ := by decide
example : dayOf 47541 = ⟨2100, 3, 1⟩ := by decide

end FlowDocs.Instant
