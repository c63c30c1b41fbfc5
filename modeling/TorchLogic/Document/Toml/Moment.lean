import TorchLogic.Text.Digits

/-!
# TOML dates and times

The form of dates and times: a date, a date and a time with or without an offset, or a time alone. A
date has four digits for the year and two each for the month and the day, which must exist in that
year. A time has two digits each for hour, minute and second, of which the last may be sixty, and
may have a fraction. Date and time are joined by the letter T in either case or by a space.

Nothing in the library wants to know a date, so only the rest of the text is handed back.
-/

namespace TorchLogic.Toml

/-- The number that exactly `count` digits at the front of a text write. -/
def exactly? (count : Nat) (cs : List Char) : Option (Nat × List Char) :=
  let digits := cs.take count
  if digits.length = count ∧ digits.all Char.isDigit then
    some (Text.decimalValue digits, cs.drop count)
  else none

/-- The rest of a text that starts with a given character. -/
def mark? (c : Char) : List Char → Option (List Char)
  | [] => none
  | d :: rest => if d = c then some rest else none

/-- The number of two digits at the front of a text, if it lies between bounds. -/
def two? (low high : Nat) (cs : List Char) : Option (Nat × List Char) :=
  (exactly? 2 cs).filter fun (n, _) => low ≤ n && n ≤ high

/-- The number of days of a month. -/
def daysIn (year month : Nat) : Nat :=
  if month = 2 then
    if year % 4 = 0 ∧ (year % 100 ≠ 0 ∨ year % 400 = 0) then 29 else 28
  else if month ∈ [4, 6, 9, 11] then 30
  else 31

/-- Whether a text starts like a date: with a year and a hyphen. -/
def startsDate (cs : List Char) : Bool :=
  ((exactly? 4 cs).bind fun (_, rest) => mark? '-' rest).isSome

/-- Whether a text starts like a time: with an hour and a colon. -/
def startsTime (cs : List Char) : Bool :=
  ((exactly? 2 cs).bind fun (_, rest) => mark? ':' rest).isSome

/-- What follows the fraction of a second, if one is written; a point without digits is refused. -/
def secondFraction? : List Char → Option (List Char)
  | '.' :: rest =>
    if (rest.takeWhile Char.isDigit).isEmpty then none else some (rest.dropWhile Char.isDigit)
  | cs => some cs

/-- What follows a time. -/
def time? (cs : List Char) : Option (List Char) := do
  let (_, rest) ← two? 0 23 cs
  let (_, rest) ← two? 0 59 (← mark? ':' rest)
  let (_, rest) ← two? 0 60 (← mark? ':' rest)
  secondFraction? rest

/-- What follows the offset of a time, if one is written. -/
def offset? : List Char → Option (List Char)
  | [] => some []
  | c :: rest =>
    if c = 'Z' ∨ c = 'z' then some rest
    else if c = '+' ∨ c = '-' then do
      let (_, rest) ← two? 0 23 rest
      let (_, rest) ← two? 0 59 (← mark? ':' rest)
      some rest
    else some (c :: rest)

/-- What follows a date and the time that may belong to it. -/
def dateTime? (cs : List Char) : Option (List Char) := do
  let (year, rest) ← exactly? 4 cs
  let (month, rest) ← two? 1 12 (← mark? '-' rest)
  let (_, rest) ← two? 1 (daysIn year month) (← mark? '-' rest)
  match rest with
  | [] => some []
  | c :: later =>
    if (c = 'T' ∨ c = 't' ∨ c = ' ') ∧ startsTime later then (time? later).bind offset?
    else some rest

/-- **What follows a date or a time**, or nothing if a text starts with neither; the inner value is
absent if the date or time is not a possible one. -/
def moment? (cs : List Char) : Option (Option (List Char)) :=
  if startsDate cs then some (dateTime? cs)
  else if startsTime cs then some (time? cs)
  else none

end TorchLogic.Toml
