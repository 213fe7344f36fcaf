/-! Time stamps. The clock counts seconds from the beginning of the year 2000. -/

namespace ClassGraph.Archive

def isLeapYear (year : Nat) : Bool := year % 4 == 0 && (year % 100 != 0 || year % 400 == 0)

def monthLengths (year : Nat) : List Nat :=
  [31, if isLeapYear year then 29 else 28, 31, 30, 31, 30, 31, 31, 30, 31, 30, 31]

/-- Month and day of the month, both from one, for a day counted from zero. -/
def monthDay (month day : Nat) : List Nat → Nat × Nat
  | [] => (month, day + 1)
  | length :: rest =>
    if day < length then (month, day + 1) else monthDay (month + 1) (day - length) rest

/-- Year, and the day in it, for a day counted from the first of January of `year`. -/
def yearDay (year day : Nat) : Nat × Nat :=
  let length := if isLeapYear year then 366 else 365
  if _h : day < length then (year, day) else yearDay (year + 1) (day - length)
termination_by day
decreasing_by
  have : 0 < length := by simp only [length]; split <;> omega
  omega

def padded (width n : Nat) : String :=
  let digits := toString n
  String.ofList (List.replicate (width - digits.length) '0') ++ digits

/-- The time stamp of a count of seconds: date and time of day, with a `T` between them. -/
def timestamp (seconds : Nat) : String :=
  let (year, day) := yearDay 2000 (seconds / 86400)
  let (month, day) := monthDay 1 day (monthLengths year)
  let time := seconds % 86400
  padded 4 year ++ "-" ++ padded 2 month ++ "-" ++ padded 2 day ++ "T" ++
    padded 2 (time / 3600) ++ ":" ++ padded 2 (time / 60 % 60) ++ ":" ++ padded 2 (time % 60)

end ClassGraph.Archive
