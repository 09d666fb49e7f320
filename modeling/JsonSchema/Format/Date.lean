import JsonSchema.Text.Digit

/-!
# Dates and times

A date is a day that the calendar has, from year one on. Days and times are written in fixed forms.
-/

namespace JsonSchema.Format

/-- Whether a year has a leap day. -/
def isLeapYear (year : Nat) : Bool :=
  year % 4 = 0 && (year % 100 ≠ 0 || year % 400 = 0)

/-- The number of days of a month. -/
def daysInMonth (year month : Nat) : Nat :=
  if month = 2 then if isLeapYear year then 29 else 28
  else if month = 4 || month = 6 || month = 9 || month = 11 then 30
  else 31

/-- Whether the calendar has a day. -/
def isDay (year month day : Nat) : Bool :=
  1 ≤ year && 1 ≤ month && month ≤ 12 && 1 ≤ day && day ≤ daysInMonth year month

/-- The number that two plain digits stand for. -/
def twoDigits? (a b : Char) : Option Nat :=
  if a.isDigit && b.isDigit then some ((a.toNat - 48) * 10 + (b.toNat - 48)) else none

/-- Takes a day written as year, month and day with dashes between them, if the calendar has it. -/
def takeDay? : List Char → Option (List Char)
  | a :: b :: c :: d :: '-' :: e :: f :: '-' :: g :: h :: rest => do
    let century ← twoDigits? a b
    let year ← twoDigits? c d
    let month ← twoDigits? e f
    let day ← twoDigits? g h
    if isDay (century * 100 + year) month day then return rest else none
  | _ => none

/-- Whether a text is a day. -/
def isDate (text : String) : Bool :=
  takeDay? text.toList = some []

/-- Takes hours and minutes with a colon between them. -/
def takeClock? : List Char → Option (List Char)
  | a :: b :: ':' :: c :: d :: rest => do
    let hour ← twoDigits? a b
    let minute ← twoDigits? c d
    if hour < 24 && minute < 60 then return rest else none
  | _ => none

/-- Takes seconds behind a colon. -/
def takeSeconds? : List Char → Option (List Char)
  | ':' :: a :: b :: rest => do
    let second ← twoDigits? a b
    if second < 60 then return rest else none
  | _ => none

/-- Takes a fraction of a second, if there is one. -/
def takeSecondsFraction? : List Char → Option (List Char)
  | '.' :: c :: rest => if c.isDigit then some (rest.dropWhile Char.isDigit) else none
  | '.' :: [] => none
  | rest => some rest

/-- Takes the offset from universal time. -/
def takeOffset? : List Char → Option (List Char)
  | c :: rest =>
    if c = 'Z' || c = 'z' then some rest
    else if c = '+' || c = '-' then takeClock? rest
    else none
  | [] => none

/-- Takes the letter between day and time. -/
def takeTimeMark? : List Char → Option (List Char)
  | c :: rest => if c = 'T' || c = 't' then some rest else none
  | [] => none

/-- Whether a text is a day with a time and an offset; a line end may follow. -/
def isDateTime (text : String) : Bool :=
  let rest := do
    let rest ← takeDay? text.toList
    let rest ← takeTimeMark? rest
    let rest ← takeClock? rest
    let rest ← takeSeconds? rest
    let rest ← takeSecondsFraction? rest
    takeOffset? rest
  rest = some [] || rest = some ['\n']

/-- What is left behind a number below `limit` of one or two digits; the first of two digits is a
plain one. -/
def takeSmall (limit : Nat) : List Char → List (List Char)
  | a :: rest =>
    let one := if Text.isDecimalDigit a then [rest] else []
    let two :=
      match rest with
      | b :: more =>
        match a.isDigit, Text.digitValue? b with
        | true, some units => if (a.toNat - 48) * 10 + units < limit then [more] else []
        | _, _ => []
      | [] => []
    two ++ one
  | [] => []

/-- What is left behind a colon. -/
def takeColon : List Char → List (List Char)
  | ':' :: rest => [rest]
  | _ => []

/-- Whether a text is a time of hours, minutes and seconds, each of one or two digits. -/
def isClockTime (text : String) : Bool :=
  let hours := takeSmall 24 text.toList
  let minutes := (hours.flatMap takeColon).flatMap (takeSmall 60)
  let seconds := (minutes.flatMap takeColon).flatMap (takeSmall 60)
  seconds.contains []

end JsonSchema.Format
