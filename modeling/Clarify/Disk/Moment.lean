import Clarify.Archive.Timestamp

/-!
# Moments

A moment as it is counted by clocks and as it is written down. Years are counted from March on, so
that the day that only some years have is the last of its year. Four hundred such years always
have 146097 days.
-/

namespace Clarify

/-- A moment: the milliseconds since the start of the year 1970. -/
structure Moment where
  milliseconds : Nat
deriving Repr, DecidableEq

namespace Moment

/-- The days from the 1st of March of the year 0 to the start of the year 1970. -/
def daysBeforeEpoch : Nat := 719468

/-- The year, counted from March on, and the day in it for a day within four hundred years. -/
def yearAndDay (day : Nat) : Nat × Nat :=
  let year := (day - day / 1460 + day / 36524 - day / 146096) / 365
  (year, day - (365 * year + year / 4 - year / 100))

/-- The month and the day in it for a day in a year that is counted from March on. -/
def monthAndDay (day : Nat) : Nat × Nat :=
  let fromMarch := (5 * day + 2) / 153
  (if fromMarch < 10 then fromMarch + 3 else fromMarch - 9, day - (153 * fromMarch + 2) / 5 + 1)

/-- The date and the time of a moment. -/
def timestamp (m : Moment) : Timestamp :=
  let seconds := m.milliseconds / 1000
  let days := seconds / 86400 + daysBeforeEpoch
  let (year, dayOfYear) := yearAndDay (days % 146097)
  let (month, day) := monthAndDay dayOfYear
  { year := days / 146097 * 400 + year + (if month ≤ 2 then 1 else 0), month, day
    hour := seconds / 3600 % 24, minute := seconds / 60 % 60, second := seconds % 60 }

/-- A number with zeros in front. -/
def padded (width n : Nat) : String :=
  let digits := toString n
  "".pushn '0' (width - digits.length) ++ digits

/-- A moment as it is written down. -/
def text (m : Moment) : String :=
  let t := m.timestamp
  s!"{padded 4 t.year}-{padded 2 t.month}-{padded 2 t.day}T"
    ++ s!"{padded 2 t.hour}:{padded 2 t.minute}:{padded 2 t.second}."
    ++ s!"{padded 3 (m.milliseconds % 1000)}Z"

example : timestamp ⟨0⟩ = ⟨1970, 1, 1, 0, 0, 0⟩ := by decide
example : timestamp ⟨951782399000⟩ = ⟨2000, 2, 28, 23, 59, 59⟩ := by decide
example : timestamp ⟨951868800000⟩ = ⟨2000, 3, 1, 0, 0, 0⟩ := by decide
example : timestamp ⟨4107542400123⟩ = ⟨2100, 3, 1, 0, 0, 0⟩ := by decide

end Moment

end Clarify
