/-!
# Calendar

Dates, times of day and offsets from universal time.
-/

namespace Dissection

structure Date where
  year : Nat
  month : Nat
  day : Nat
  deriving DecidableEq, Repr

structure Time where
  hour : Nat
  minute : Nat
  second : Nat
  microsecond : Nat
  deriving DecidableEq, Repr

/-- A day with a time, and the minutes by which its clock is ahead of universal time if known. -/
structure DateTime where
  date : Date
  time : Time
  offset : Option Int
  deriving DecidableEq, Repr

namespace Date

def isLeap (year : Nat) : Bool := year % 4 = 0 && (year % 100 ≠ 0 || year % 400 = 0)

def daysIn (year month : Nat) : Nat :=
  if month = 2 then if isLeap year then 29 else 28
  else if month = 4 ∨ month = 6 ∨ month = 9 ∨ month = 11 then 30 else 31

/-- Tells the days that the calendar has, from year 1 to year 9999. -/
def isValid (d : Date) : Bool :=
  1 ≤ d.year && d.year ≤ 9999 && 1 ≤ d.month && d.month ≤ 12 && 1 ≤ d.day &&
    d.day ≤ daysIn d.year d.month

end Date

example : Date.isValid ⟨2024, 2, 29⟩ = true ∧ Date.isValid ⟨1900, 2, 29⟩ = false := by decide

/-!
## Reading dates and times

The notation of RFC 3339, with its parts optional from the right: a date, a date and a time, a date
and a time with an offset, or a time alone. Each reader takes the longest such text at the front
and returns what follows it.
-/

def digitValue? (c : Char) : Option Nat :=
  if c.isDigit then some (c.toNat - 48) else none

def readDigits? : (count : Nat) → List Char → Option (Nat × List Char)
  | 0, cs => some (0, cs)
  | _ + 1, [] => none
  | count + 1, c :: r => do
    let d ← digitValue? c
    let (n, rest) ← readDigits? count r
    return (d * Nat.pow 10 count + n, rest)

def readPair? (least greatest : Nat) (cs : List Char) : Option (Nat × List Char) := do
  let (n, rest) ← readDigits? 2 cs
  if least ≤ n ∧ n ≤ greatest then some (n, rest) else none

def after? (c : Char) : List Char → Option (List Char)
  | d :: r => if d = c then some r else none
  | [] => none

/-- The microseconds that decimals of a second stand for: digits past the sixth are dropped. -/
def microseconds (digits : List Char) : Nat :=
  let kept := digits.take 6
  (kept ++ List.replicate (6 - kept.length) '0').foldl (fun n c => 10 * n + (c.toNat - 48)) 0

/-- The decimals after the seconds, if a point and a digit follow. -/
def readFraction (cs : List Char) : Nat × List Char :=
  match cs with
  | '.' :: r =>
    let digits := r.takeWhile Char.isDigit
    if digits.isEmpty then (0, cs) else (microseconds digits, r.dropWhile Char.isDigit)
  | _ => (0, cs)

def Time.read? (cs : List Char) : Option (Time × List Char) := do
  let (hour, cs) ← readPair? 0 23 cs
  let (minute, cs) ← after? ':' cs >>= readPair? 0 59
  let (second, cs) ← after? ':' cs >>= readPair? 0 59
  let (microsecond, cs) := readFraction cs
  return (⟨hour, minute, second, microsecond⟩, cs)

/-- An offset from universal time in minutes: `Z`, or a sign with hours and minutes. -/
def readOffset? (cs : List Char) : Option (Int × List Char) :=
  match cs with
  | [] => none
  | c :: r =>
    if c = 'Z' ∨ c = 'z' then some (0, r)
    else if c = '+' ∨ c = '-' then do
      let (hour, r) ← readPair? 0 23 r
      let (minute, r) ← after? ':' r >>= readPair? 0 59
      let minutes : Int := 60 * hour + minute
      return (if c = '-' then -minutes else minutes, r)
    else none

def Date.read? (cs : List Char) : Option (Date × List Char) := do
  let (year, cs) ← readDigits? 4 cs
  let (month, cs) ← after? '-' cs >>= readPair? 1 12
  let (day, cs) ← after? '-' cs >>= readPair? 1 31
  let date : Date := ⟨year, month, day⟩
  if date.isValid then some (date, cs) else none

inductive Moment where
  | dateTime (d : DateTime)
  | date (d : Date)
  | time (t : Time)
  deriving DecidableEq, Repr

/-- The time and the offset after a date, set off by a `T` or a space. -/
def readTimeOfDay? (cs : List Char) : Option (Time × Option Int × List Char) :=
  match cs with
  | [] => none
  | c :: r =>
    if c = 'T' ∨ c = 't' ∨ c = ' ' then do
      let (time, r) ← Time.read? r
      match readOffset? r with
      | some (minutes, r) => some (time, some minutes, r)
      | none => some (time, none, r)
    else none

/-- A date with what follows of a time, or a time alone. -/
def Moment.read? (cs : List Char) : Option (Moment × List Char) :=
  match Date.read? cs with
  | some (day, rest) =>
    match readTimeOfDay? rest with
    | some (clock, offset, rest) => some (.dateTime ⟨day, clock, offset⟩, rest)
    | none => some (.date day, rest)
  | none => (Time.read? cs).map fun p => (.time p.1, p.2)

end Dissection
