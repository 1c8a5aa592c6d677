import WorkerHost.Text.Scan
import WorkerHost.Text.Words
/-!
Dates and times in TOML: a date, a time of day, or both, the latter perhaps with an offset from
universal time. They are kept as text in one normal form. A text that is none of them is refused
with the part that is wrong and what should stand there.
-/

namespace WorkerHost.Toml

open Text

/-- What is wrong with the text of a date or time: the part it is in, and what that part needs. -/
structure MomentFault where
  part : String
  expected : Option String
  deriving DecidableEq

def MomentFault.message (f : MomentFault) : String :=
  "invalid " ++ f.part ++ (f.expected.map (", expected " ++ ·)).getD ""

/-- Readers of the front of a text that say what is wrong with it. -/
abbrev MomentReader (α : Type) := StateT (List Char) (Except MomentFault) α

namespace MomentReader

/-- Refuses the text. -/
def refuse {α : Type} (part expected : String) : MomentReader α :=
  throw ⟨part, some expected⟩

/-- All digits that come next, at least one. -/
def digits (part expected : String) : MomentReader (List Char) := do
  let s ← get
  let ds := s.takeWhile Char.isDigit
  if ds.isEmpty then refuse part expected
  set (s.dropWhile Char.isDigit)
  return ds

/-- The next character, of a class. -/
def symbol (part expected : String) (p : Char → Bool) : MomentReader Char := do
  match ← get with
  | c :: rest =>
    if p c then do
      set rest
      return c
    else refuse part expected
  | [] => refuse part expected

/-- The condition that some digits are so many. -/
def sized (part expected : String) (count : Nat) (ds : List Char) : MomentReader Unit :=
  if ds.length == count then pure () else refuse part expected

/-- The condition that a number is within bounds. -/
def within (part expected : String) (lo hi n : Nat) : MomentReader Unit :=
  if lo ≤ n && n ≤ hi then pure () else refuse part expected

/-- The reader without what it says about faults. -/
def toScan {α : Type} (r : MomentReader α) : Scan α := fun s =>
  (r s).toOption

end MomentReader

open MomentReader

/-- The days of a month; February has one more in a leap year. -/
def daysOf (year month : Nat) : Nat :=
  if month == 2 then
    if year % 4 == 0 && (year % 100 != 0 || year % 400 == 0) then 29 else 28
  else if month == 4 || month == 6 || month == 9 || month == 11 then 30
  else 31

def date : MomentReader (List Char) := do
  let year ← digits "datetime" "year or hour"
  let _ ← symbol "datetime" "`-` (YYYY-MM) or `:` (HH:MM)" (· == '-')
  let month ← digits "date" "month"
  let _ ← symbol "date" "`-` (MM-DD)" (· == '-')
  let day ← digits "date" "day"
  sized "date" "a four-digit year (YYYY)" 4 year
  sized "date" "a two-digit month (MM)" 2 month
  sized "date" "a two-digit day (DD)" 2 day
  within "date" "month between 01 and 12" 1 12 (decimal month)
  let last := daysOf (decimal year) (decimal month)
  within "date" ("day between 01 and " ++ toString last) 1 last (decimal day)
  return year ++ '-' :: month ++ '-' :: day

/-- The digits of a fraction of a second: at most nine are kept, without zeros at the end. -/
def fraction : MomentReader (List Char) := do
  if (← get).head? == some '.' then
    let _ ← symbol "time" "nanosecond" (· == '.')
    let ds ← digits "time" "nanosecond"
    let ds := ((ds.take 9).reverse.dropWhile (· == '0')).reverse
    return if ds.isEmpty then [] else '.' :: ds
  else return []

/-- A time of day; a minute may have a leap second. -/
def timeOfDay : MomentReader (List Char) := do
  let hour ← digits "time" "hour"
  let _ ← symbol "time" "`:` (HH:MM)" (· == ':')
  let minute ← digits "time" "minute"
  let _ ← symbol "time" "`:` (MM:SS)" (· == ':')
  let second ← digits "time" "second"
  let sub ← fraction
  sized "time" "a two-digit hour (HH)" 2 hour
  sized "time" "a two-digit minute (MM)" 2 minute
  sized "time" "a two-digit second (SS)" 2 second
  within "time" "hour between 00 and 23" 0 23 (decimal hour)
  within "time" "minute between 00 and 59" 0 59 (decimal minute)
  within "time" "second between 00 and 60" 0 60 (decimal second)
  return hour ++ ':' :: minute ++ ':' :: second ++ sub

/-- The offset from universal time; one of no minutes is written with a plus sign. -/
def offset : MomentReader (List Char) := do
  let sign ← symbol "offset" "`Z`, +OFFSET, -OFFSET" fun c => c == 'Z' || c == 'z' || c == '+' || c == '-'
  if sign == 'Z' || sign == 'z' then return ['Z']
  let hour ← digits "offset" "hour"
  let _ ← symbol "offset" "`:` (HH:MM)" (· == ':')
  let minute ← digits "offset" "minute"
  sized "offset" "a two-digit hour (HH)" 2 hour
  sized "offset" "a two-digit minute (MM)" 2 minute
  within "offset" "hours between 00 and 23" 0 23 (decimal hour)
  within "offset" "minutes between 00 and 59" 0 59 (decimal minute)
  let sign := if decimal hour + decimal minute == 0 then '+' else sign
  return sign :: hour ++ ':' :: minute

/-- What may stand between a date and a time. -/
def isJoint (c : Char) : Bool :=
  c == 'T' || c == 't' || c == ' '

/-- A date, a time, or a date with a time after `T` or a space, at the front of a text. -/
def moment : Scan (List Char) :=
  (do
    let day ← date.toScan
    let time ← Scan.option do
      let _ ← Scan.one isJoint
      let time ← timeOfDay.toScan
      let off ← Scan.option offset.toScan
      return 'T' :: time ++ off.getD []
    return day ++ time.getD []) <|>
  timeOfDay.toScan

/-- What a whole text says that starts like a date or like a time. -/
def wholeMoment : MomentReader (List Char) := do
  let s ← get
  let _ ← digits "datetime" "year or hour"
  let mark ← symbol "datetime" "`-` (YYYY-MM) or `:` (HH:MM)" fun c => c == '-' || c == ':'
  set s
  if mark == ':' then timeOfDay
  else
    let day ← date
    if (← get).isEmpty then return day
    let _ ← symbol "date-time" "`T` between date and time" isJoint
    let time ← timeOfDay
    let off ← if (← get).isEmpty then pure [] else offset
    return day ++ 'T' :: time ++ off

/-- The normal form of the date or time that a text is. -/
def moment? (s : List Char) : Except MomentFault (List Char) := do
  let (m, rest) ← wholeMoment s
  if rest.isEmpty then return m else throw ⟨"datetime", none⟩

end WorkerHost.Toml
