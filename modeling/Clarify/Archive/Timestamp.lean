import Clarify.Bytes

/-!
# Dates of archive entries

A date and a time packed into two words, for the years from 1980 on and to two seconds.

Results:
* `ofWords?_toWords`: a date that can be written is read back.
-/

namespace Clarify

/-- A date and a time. -/
structure Timestamp where
  year : Nat
  month : Nat
  day : Nat
  hour : Nat
  minute : Nat
  second : Nat
deriving Repr, DecidableEq

namespace Timestamp

/-- The first date there is; it stands for all dates that are not known. -/
def epoch : Timestamp := ⟨1980, 1, 1, 0, 0, 0⟩

/-- Whether a year has a 29th of February. -/
def isLeap (year : Nat) : Bool := year % 4 == 0 && (year % 100 != 0 || year % 400 == 0)

/-- The number of days in a month. -/
def daysIn (year month : Nat) : Nat :=
  if month = 2 then if isLeap year then 29 else 28
  else if month ∈ [4, 6, 9, 11] then 30 else 31

/-- Whether there is such a date and it can be written. -/
def isValid (t : Timestamp) : Bool :=
  1980 ≤ t.year && t.year ≤ 2107 && 1 ≤ t.month && t.month ≤ 12 && 1 ≤ t.day
    && t.day ≤ daysIn t.year t.month && t.hour ≤ 23 && t.minute ≤ 59 && t.second ≤ 60

/-- The date with a leap second taken as the last pair of seconds. -/
def withoutLeapSecond (t : Timestamp) : Timestamp := { t with second := min t.second 58 }

/-- The date in a date word and a time word, if there is such a date. -/
def ofWords? (date time : Nat) : Option Timestamp :=
  let t : Timestamp := {
    year := 1980 + date / 512, month := date / 32 % 16, day := date % 32
    hour := time / 2048, minute := time / 32 % 64, second := 2 * (time % 32) }
  if t.isValid then some t.withoutLeapSecond else none

/-- The date word. -/
def dateWord (t : Timestamp) : Nat := (t.year - 1980) * 512 + t.month * 32 + t.day

/-- The time word. -/
def timeWord (t : Timestamp) : Nat := t.hour * 2048 + t.minute * 32 + t.second / 2

theorem ofWords?_toWords {t : Timestamp} (valid : t.isValid = true) (even : t.second % 2 = 0)
    (small : t.second < 60) : ofWords? t.dateWord t.timeWord = some t := by
  have day_lt : t.day < 32 := by
    have : daysIn t.year t.month ≤ 31 := by unfold daysIn; split <;> split <;> omega
    simp only [isValid, Bool.and_eq_true, decide_eq_true_eq] at valid
    omega
  have read : (⟨1980 + t.dateWord / 512, t.dateWord / 32 % 16, t.dateWord % 32,
      t.timeWord / 2048, t.timeWord / 32 % 64, 2 * (t.timeWord % 32)⟩ : Timestamp) = t := by
    simp only [isValid, Bool.and_eq_true, decide_eq_true_eq] at valid
    unfold dateWord timeWord
    congr 1 <;> omega
  have last : t.withoutLeapSecond = t := by
    unfold withoutLeapSecond
    congr 1
    omega
  simp [ofWords?, read, valid, last]

end Timestamp

end Clarify
