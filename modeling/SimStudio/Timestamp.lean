import SimStudio.Number.Digits
import SimStudio.Text.Blank

/-!
# Moments in Time

When a project was created: a day of the Gregorian calendar and a time of that
day in UTC, to the nanosecond.

A moment is written as `2024-01-02T03:04:05.250Z`. The fraction has three, six
or nine digits, or is left out when it is zero. Years of more than four digits
and years before the year zero have a sign.

It is read with more freedom. The zone may be another one, which is less than a
day away from UTC, so that the day changes by one at most; that is all the
arithmetic on days there is. Blanks may stand before each number and before the
marks between them, and a second of 60 is the leap second at the end of its
minute. A leap second is kept as the second before it with a fraction of one or
more.

## Main definitions

* `Date`: A day of the calendar.
* `Date.next?`, `Date.previous?`: Its neighbours.
* `Timestamp`: A day and a time of it.
* `Timestamp.text`: How a moment is written.
* `Timestamp.read?`: The moment that a text stands for.
* `Timestamp.ofEpoch?`: The moment that a clock shows.
-/

namespace SimStudio

/-- Whether a year has a leap day. -/
def isLeapYear (year : Int) : Bool :=
  year % 4 == 0 && (year % 100 != 0 || year % 400 == 0)

/-- How many days a month has. -/
def daysOfMonth (year : Int) (month : Nat) : Nat :=
  if month = 2 then if isLeapYear year then 29 else 28
  else if month = 4 ∨ month = 6 ∨ month = 9 ∨ month = 11 then 30
  else 31

/-- A day of the Gregorian calendar. Its years reach some 262 thousand in both
    directions. -/
structure Date where
  year : Int
  month : Nat
  day : Nat
  year_range : -262143 ≤ year ∧ year ≤ 262142
  month_range : 1 ≤ month ∧ month ≤ 12
  day_range : 1 ≤ day ∧ day ≤ daysOfMonth year month
  deriving DecidableEq

namespace Date

instance : Inhabited Date := ⟨⟨1970, 1, 1, by decide, by decide, by decide⟩⟩

/-- The day with a year, month and day of the month, if there is one. -/
def of? (year : Int) (month day : Nat) : Option Date :=
  if h : (-262143 ≤ year ∧ year ≤ 262142) ∧ (1 ≤ month ∧ month ≤ 12) ∧
      (1 ≤ day ∧ day ≤ daysOfMonth year month) then
    some ⟨year, month, day, h.1, h.2.1, h.2.2⟩
  else none

/-- The day after. -/
def next? (d : Date) : Option Date :=
  if d.day < daysOfMonth d.year d.month then of? d.year d.month (d.day + 1)
  else if d.month < 12 then of? d.year (d.month + 1) 1
  else of? (d.year + 1) 1 1

/-- The day before. -/
def previous? (d : Date) : Option Date :=
  if 1 < d.day then of? d.year d.month (d.day - 1)
  else if 1 < d.month then of? d.year (d.month - 1) (daysOfMonth d.year (d.month - 1))
  else of? (d.year - 1) 12 31

/-- The day that comes so many days after another one. -/
def after? (d : Date) : Nat → Option Date
  | 0 => some d
  | n + 1 => d.next?.bind fun d => after? d n

/-- The year, with a sign unless it has at most four digits and none below
    zero. -/
def yearText (year : Int) : List Char :=
  if 0 ≤ year ∧ year ≤ 9999 then Digits.padded 10 4 false year.toNat
  else (if year < 0 then '-' else '+') :: Digits.padded 10 4 false year.natAbs

/-- The day as `year-month-day`. -/
def text (d : Date) : List Char :=
  yearText d.year ++ '-' :: (Digits.padded 10 2 false d.month ++
    '-' :: Digits.padded 10 2 false d.day)

end Date

/-- A moment in UTC: a day, a second of the day, and nanoseconds. The last
    second of a minute may go on for another one. -/
structure Timestamp where
  date : Date
  second : Nat
  nano : Nat
  second_lt : second < 86400 := by decide
  nano_lt : nano < 1000000000 ∨ (second % 60 = 59 ∧ nano < 2000000000) := by decide
  deriving DecidableEq

namespace Timestamp

instance : Inhabited Timestamp := ⟨⟨default, 0, 0, by decide, by decide⟩⟩

/-- The digits behind the point of the seconds, in groups of three. -/
def fractionText (nano : Nat) : List Char :=
  if nano = 0 then []
  else if nano % 1000000 = 0 then '.' :: Digits.padded 10 3 false (nano / 1000000)
  else if nano % 1000 = 0 then '.' :: Digits.padded 10 6 false (nano / 1000)
  else '.' :: Digits.padded 10 9 false nano

/-- A moment as it is written. -/
def text (t : Timestamp) : String :=
  let leap := if t.nano < 1000000000 then 0 else 1
  let two := Digits.padded 10 2 false
  String.ofList (t.date.text ++ 'T' :: (two (t.second / 3600) ++
    ':' :: (two (t.second / 60 % 60) ++ ':' :: (two (t.second % 60 + leap) ++
      (fractionText (t.nano % 1000000000) ++ ['Z'])))))

/-- The moment of a day, a second of it and nanoseconds, if there is one. -/
def of? (date : Date) (second nano : Nat) : Option Timestamp :=
  if h : second < 86400 ∧
      (nano < 1000000000 ∨ (second % 60 = 59 ∧ nano < 2000000000)) then
    some ⟨date, second, nano, h.1, h.2⟩
  else none

/-- The moment so many seconds and nanoseconds after the year 1970 began. -/
def ofEpoch? (seconds nano : Nat) : Option Timestamp :=
  (Date.after? default (seconds / 86400)).bind fun date => of? date (seconds % 86400) nano

/-- The moment at which clocks that are ahead of UTC by some seconds, less than
    a day, show a time of a day. -/
def ofZone? (date : Date) (second nano : Nat) (ahead : Int) : Option Timestamp :=
  let shifted : Int := second - ahead
  if shifted < 0 then date.previous?.bind fun date => of? date (shifted + 86400).toNat nano
  else if 86400 ≤ shifted then date.next?.bind fun date => of? date (shifted - 86400).toNat nano
  else of? date shifted.toNat nano

namespace Grammar

/-- Past the blanks at the beginning. -/
def skipBlanks (cs : List Char) : List Char := cs.dropWhile Text.isBlank

/-- A number of one digit or more, up to a width. -/
def number? (width : Nat) (cs : List Char) : Option (Nat × List Char) :=
  let ds := (cs.take width).takeWhile Char.isDigit
  if ds.isEmpty then none else some (Digits.decimalValue ds, cs.drop ds.length)

/-- A number behind blanks. -/
def paddedNumber? (width : Nat) (cs : List Char) : Option (Nat × List Char) :=
  number? width (skipBlanks cs)

/-- A year: up to four digits, or any number of them behind a sign. -/
def year? (cs : List Char) : Option (Int × List Char) :=
  match skipBlanks cs with
  | '-' :: rest => (number? rest.length rest).map fun (n, rest) => (-(n : Int), rest)
  | '+' :: rest => (number? rest.length rest).map fun (n, rest) => ((n : Int), rest)
  | cs => (number? 4 cs).map fun (n, rest) => ((n : Int), rest)

/-- Past a mark that blanks may precede. -/
def mark? (mark : Char) (cs : List Char) : Option (List Char) :=
  match skipBlanks cs with
  | c :: rest => if c = mark then some rest else none
  | [] => none

/-- The nanoseconds of a fraction, if a point follows. Digits from the tenth
    on are passed over. -/
def fraction? : List Char → Option (Nat × List Char)
  | '.' :: rest => do
      let (n, after) ← number? 9 rest
      pure (n * 10 ^ (9 - (rest.length - after.length)), after.dropWhile Char.isDigit)
  | cs => some (0, cs)

/-- How many seconds a zone is ahead of UTC, by two digits of hours and two of
    minutes. -/
def distance? : List Char → Option (Nat × List Char)
  | a :: b :: rest => do
      let hours ← Digits.value? 10 [a, b]
      match rest.dropWhile (fun c => c == ':' || Text.isBlank c) with
      | c :: d :: rest =>
          let minutes ← Digits.value? 10 [c, d]
          if minutes < 60 ∧ hours < 24 then pure (hours * 3600 + minutes * 60, rest) else none
      | _ => none
  | _ => none

/-- A zone: UTC by one of its names, or a distance from it. -/
def zone? (cs : List Char) : Option (Int × List Char) :=
  if ((cs.take 3).map Char.toLower) = ['u', 't', 'c'] then some (0, cs.drop 3)
  else
    match cs with
    | 'Z' :: rest | 'z' :: rest => some (0, rest)
    | '+' :: rest => (distance? rest).map fun (n, rest) => ((n : Int), rest)
    | '-' :: rest | '\u2212' :: rest => (distance? rest).map fun (n, rest) => (-(n : Int), rest)
    | _ => none

end Grammar

open Grammar in
/-- The moment that a text stands for: a day, a time of it and a zone. -/
def read? (text : String) : Option Timestamp := do
  let (year, cs) ← year? text.toList
  let (month, cs) ← paddedNumber? 2 (← mark? '-' cs)
  let (day, cs) ← paddedNumber? 2 (← mark? '-' cs)
  let date ← Date.of? year month day
  match cs with
  | [] => none
  | c :: cs =>
      if c ≠ 'T' ∧ c ≠ 't' ∧ c ≠ ' ' then none
      else do
        let (hour, cs) ← paddedNumber? 2 cs
        let (minute, cs) ← paddedNumber? 2 (← mark? ':' cs)
        let (second, cs) ← paddedNumber? 2 (← mark? ':' cs)
        let (nano, cs) ← fraction? cs
        let (ahead, cs) ← zone? (skipBlanks cs)
        if hour < 24 ∧ minute < 60 ∧ second ≤ 60 ∧ (skipBlanks cs).isEmpty then
          let time := hour * 3600 + minute * 60
          if second = 60 then ofZone? date (time + 59) (nano + 1000000000) ahead
          else ofZone? date (time + second) nano ahead
        else none

end Timestamp

end SimStudio
