import FileWatch.Toml.Number

/-!
# Dates and times

A moment is a date, a time of day, or a date and a time with or without an offset from universal
time.  Days are those of the calendar: months have their lengths and leap years their extra day.
A minute may have a leap second.
-/

namespace FileWatch.Toml

open Scan

/-- Exactly so many decimal digits, read as a number within bounds. -/
def field (width low high : Nat) : Scan Nat := do
  let n := numeral 10 (← times width (satisfy isDecimal))
  if low ≤ n ∧ n ≤ high then return n else failure

def isLeapYear (year : Nat) : Bool := year % 4 == 0 && (year % 100 != 0 || year % 400 == 0)

/-- The length of a month. -/
def daysIn (year month : Nat) : Nat :=
  if month == 2 then (if isLeapYear year then 29 else 28)
  else if month == 4 || month == 6 || month == 9 || month == 11 then 30
  else 31

/-- A day of the calendar. -/
def date : Scan Unit := do
  let year ← field 4 0 9999
  char '-'
  let month ← field 2 1 12
  char '-'
  let _ ← field 2 1 (daysIn year month)

def timeOfDay : Scan Unit := do
  let _ ← field 2 0 23
  char ':'
  let _ ← field 2 0 59
  char ':'
  let _ ← field 2 0 60
  let _ ← optional? (do char '.'; let _ ← satisfy isDecimal; let _ ← run isDecimal)

/-- An offset from universal time. -/
def zone : Scan Unit :=
  (do let _ ← satisfy fun c => c == 'Z' || c == 'z')
  <|> (do let _ ← satisfy fun c => c == '+' || c == '-'
          let _ ← field 2 0 23
          char ':'
          let _ ← field 2 0 59)

/-- A date, a time of day, or both. -/
def moment : Scan Unit :=
  (do date
      let _ ← optional? (do
        let _ ← satisfy fun c => c == 'T' || c == 't' || c == ' '
        timeOfDay
        let _ ← optional? zone))
  <|> timeOfDay

/-- What a scan read, as it was written. -/
def verbatim (p : Scan Unit) : Scan String := fun c => do
  let ((), c') ← p c
  return (String.ofList (c.rest.take (c.rest.length - c'.rest.length)), c')

end FileWatch.Toml
