import Mathlib.Data.Int.Notation
import OdooKernel.Core.Text

/-!
# Dates and instants as texts

A date is the number of its day counted from 1970-01-01, an instant its microseconds from the first
midnight of that day.

* `Date.civil`, `Date.ofCivil` — the calendar.
* `Date.text`, `strictDate` — a date as `%Y-%m-%d`, and the only text of it that is read.
* `Instant.text`, `readInstant` — an instant to the second, and the looser texts it is read from.
-/

namespace OdooKernel

/-- A day, counted from 1970-01-01. -/
abbrev Date := ℤ

/-- An instant, in microseconds from the midnight that starts 1970-01-01. -/
abbrev Instant := ℤ

/-- The microseconds of a day. -/
def dayLength : ℤ := 86400000000

/-! ## The calendar -/

/-- The day of a year, a month and a day of the month. -/
def Date.ofCivil (year month day : ℤ) : Date :=
  let y := if month ≤ 2 then year - 1 else year
  let era := y / 400
  let yearOfEra := y - era * 400
  let dayOfYear := (153 * ((month + 9) % 12) + 2) / 5 + day - 1
  era * 146097 + (yearOfEra * 365 + yearOfEra / 4 - yearOfEra / 100 + dayOfYear) - 719468

/-- The year, the month and the day of the month of a day. -/
def Date.civil (date : Date) : ℤ × ℤ × ℤ :=
  let z := date + 719468
  let era := z / 146097
  let dayOfEra := z - era * 146097
  let yearOfEra := (dayOfEra - dayOfEra / 1460 + dayOfEra / 36524 - dayOfEra / 146096) / 365
  let dayOfYear := dayOfEra - (365 * yearOfEra + yearOfEra / 4 - yearOfEra / 100)
  let monthIndex := (5 * dayOfYear + 2) / 153
  let month := if monthIndex < 10 then monthIndex + 3 else monthIndex - 9
  let year := yearOfEra + era * 400
  (if month ≤ 2 then year + 1 else year, month, dayOfYear - (153 * monthIndex + 2) / 5 + 1)

def Date.year (date : Date) : ℤ := date.civil.1

/-- A year, a month and a day of the month that are a day. -/
def Date.ofCivil? (year month day : ℤ) : Option Date :=
  let date := Date.ofCivil year month day
  if date.civil = (year, month, day) then some date else none

/-! ## Texts -/

/-- The digits of a number, with zeros before it up to a width. -/
def padded (width n : ℕ) : List Char :=
  let digits := Nat.toDigits 10 n
  List.replicate (width - digits.length) '0' ++ digits

/-- A year has four digits, and a sign where it does not fit them. -/
def yearText (year : ℤ) : List Char :=
  if 0 ≤ year ∧ year ≤ 9999 then padded 4 year.toNat
  else (if year < 0 then '-' else '+') :: padded 4 year.natAbs

def Date.chars (date : Date) : List Char :=
  let (year, month, day) := date.civil
  yearText year ++ '-' :: padded 2 month.toNat ++ '-' :: padded 2 day.toNat

/-- A date as `%Y-%m-%d`. -/
def Date.text (date : Date) : String := String.ofList date.chars

/-- An instant as `%Y-%m-%d %H:%M:%S`. -/
def Instant.text (instant : Instant) : String :=
  let second := (instant % dayLength / 1000000).toNat
  String.ofList <| Date.chars (instant / dayLength) ++ ' ' :: padded 2 (second / 3600)
    ++ ':' :: padded 2 (second / 60 % 60) ++ ':' :: padded 2 (second % 60)

/-! ## Reading -/

/-- Up to `width` digits, at least one, and what follows them; spaces before them are skipped. -/
def readDigits (width : ℕ) (cs : List Char) : Option (ℕ × List Char) :=
  let cs := cs.dropWhile isWhitespace
  let digits := (cs.take width).takeWhile (·.isDigit)
  if digits.isEmpty then none else some (digitsValue digits, cs.drop digits.length)

/-- A year: four digits, or a sign and any number of them. -/
def readYear (cs : List Char) : Option (ℤ × List Char) :=
  match cs.dropWhile isWhitespace with
  | '-' :: cs => (readDigits cs.length cs).map fun (n, rest) => (-(n : ℤ), rest)
  | '+' :: cs => (readDigits cs.length cs).map fun (n, rest) => ((n : ℤ), rest)
  | cs => (readDigits 4 cs).map fun (n, rest) => ((n : ℤ), rest)

/-- A character that has to be there. -/
def readChar (c : Char) : List Char → Option (List Char)
  | c' :: cs => if c' = c then some cs else none
  | [] => none

/-- A date as `%Y-%m-%d`, and what follows it. -/
def readDate (cs : List Char) : Option (Date × List Char) := do
  let (year, cs) ← readYear cs
  let cs ← readChar '-' cs
  let (month, cs) ← readDigits 2 cs
  let cs ← readChar '-' cs
  let (day, cs) ← readDigits 2 cs
  let date ← Date.ofCivil? year month day
  return (date, cs)

/-- A text that is a date, spelled as the date is. -/
def strictDate (s : String) : Option Date :=
  match readDate s.toList with
  | some (date, []) => if date.text = s then some date else none
  | _ => none

/-- The part of a second after its point, in microseconds, and what follows it. -/
def readFraction : List Char → Option (ℕ × List Char)
  | '.' :: cs =>
    let digits := cs.takeWhile (·.isDigit)
    if digits.isEmpty then none
    else some (digitsValue ((digits ++ List.replicate 6 '0').take 6), cs.drop digits.length)
  | cs => some (0, cs)

/-- The time of a day as `%H:%M:%S%.f`, in microseconds, and what follows it. -/
def readTime (cs : List Char) : Option (ℤ × List Char) := do
  let (hour, cs) ← readDigits 2 cs
  let cs ← readChar ':' cs
  let (minute, cs) ← readDigits 2 cs
  let cs ← readChar ':' cs
  let (second, cs) ← readDigits 2 cs
  let (fraction, cs) ← readFraction cs
  if hour < 24 ∧ minute < 60 ∧ second ≤ 60 then
    return ((((hour * 60 + minute) * 60 + second) * 1000000 + fraction : ℕ), cs)
  else none

/-- A text that is an instant: a date and a time, or a date alone that is its midnight. -/
def readInstant (s : String) : Option Instant :=
  let dateAndTime := do
    let (date, cs) ← readDate s.toList
    let (time, cs) ← readTime cs
    if cs.isEmpty then some (date * dayLength + time) else none
  dateAndTime <|> (strictDate s).map (· * dayLength)

example : strictDate "2024-02-29" = some 19782 := by decide +kernel

example : Instant.text (19782 * dayLength + 3661000000) = "2024-02-29 01:01:01" := by decide +kernel

end OdooKernel
