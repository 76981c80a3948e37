/-!
# Dates and times of day

Civil dates of the Gregorian calendar, times of day to the microsecond, the moments that combine
them, and their ISO 8601 texts. `Instant` is a count of seconds since the start of 1970.
-/

namespace LintGate

structure Date where
  year : Nat
  month : Nat
  day : Nat
  deriving DecidableEq, Repr

structure TimeOfDay where
  hour : Nat
  minute : Nat
  second : Nat
  micro : Nat
  deriving DecidableEq, Repr

/-- A date, a time of day, or both; with both, possibly the offset from universal time in
minutes. -/
inductive Moment
  | date (d : Date)
  | time (t : TimeOfDay)
  | both (d : Date) (t : TimeOfDay) (offset : Option Int)
  deriving DecidableEq, Repr

def padded (width n : Nat) : String :=
  let digits := n.repr
  String.ofList (List.replicate (width - digits.length) '0') ++ digits

namespace Date

def isLeapYear (year : Nat) : Bool := year % 4 == 0 && (year % 100 != 0 || year % 400 == 0)

def daysInMonth (year month : Nat) : Nat :=
  if month = 2 then (if isLeapYear year then 29 else 28)
  else if month = 4 || month = 6 || month = 9 || month = 11 then 30
  else 31

/-- Whether the numbers name a day of the years 1 to 9999. -/
def IsValid (d : Date) : Prop :=
  1 ≤ d.year ∧ d.year ≤ 9999 ∧ 1 ≤ d.month ∧ d.month ≤ 12 ∧ 1 ≤ d.day ∧
    d.day ≤ daysInMonth d.year d.month

instance (d : Date) : Decidable d.IsValid := inferInstanceAs (Decidable (_ ∧ _))

def iso (d : Date) : String := s!"{padded 4 d.year}-{padded 2 d.month}-{padded 2 d.day}"

/-- The date of a day counted from 1 January 1970. Years are counted from March, so that the
leap day ends one, and in eras of 400 years, which all have the same length. -/
def ofDayNumber (days : Int) : Date :=
  let shifted := days + 719468
  let era := shifted.fdiv 146097
  let dayOfEra := (shifted.fmod 146097).toNat
  let yearOfEra := (dayOfEra - dayOfEra / 1460 + dayOfEra / 36524 - dayOfEra / 146096) / 365
  let dayOfYear := dayOfEra - (365 * yearOfEra + yearOfEra / 4 - yearOfEra / 100)
  let fromMarch := (5 * dayOfYear + 2) / 153
  let day := dayOfYear - (153 * fromMarch + 2) / 5 + 1
  let month := if fromMarch < 10 then fromMarch + 3 else fromMarch - 9
  ⟨(yearOfEra + era * 400 + (if month ≤ 2 then 1 else 0)).toNat, month, day⟩

end Date

def TimeOfDay.iso (t : TimeOfDay) : String :=
  s!"{padded 2 t.hour}:{padded 2 t.minute}:{padded 2 t.second}" ++
    (if t.micro = 0 then "" else "." ++ padded 6 t.micro)

def isoOffset (minutes : Int) : String :=
  let n := minutes.natAbs
  (if minutes < 0 then "-" else "+") ++ s!"{padded 2 (n / 60)}:{padded 2 (n % 60)}"

def Moment.iso : Moment → String
  | .date d => d.iso
  | .time t => t.iso
  | .both d t offset => s!"{d.iso}T{t.iso}" ++ ((offset.map isoOffset).getD "")

/-- Seconds since the start of 1970, universal time; negative before it. -/
abbrev Instant := Int

def Instant.civil (now : Instant) : Date × TimeOfDay :=
  let s := (now.fmod 86400).toNat
  (Date.ofDayNumber (now.fdiv 86400), ⟨s / 3600, s / 60 % 60, s % 60, 0⟩)

/-- The instant as date and time of day; the year is written without leading zeros. -/
def Instant.stamp (now : Instant) : String :=
  let (d, t) := Instant.civil now
  s!"{d.year.repr}-{padded 2 d.month}-{padded 2 d.day}T{t.iso}Z"

end LintGate
