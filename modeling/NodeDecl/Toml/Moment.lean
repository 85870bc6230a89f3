/-! # Dates and times in TOML

A date, a time of day, or both with an optional offset from universal time. The text of a
moment is its normal form: a `T` before the time, a fraction without closing zeros and of at
most nine digits, `Z` or a signed offset. A moment that stands for itself in a document keeps to
the clock; one that is the text of a table may go up to the 24th hour.
-/

namespace NodeDecl.Toml

def digitValue (c : Char) : Nat := c.toNat - 48

/-- Reads two digits. -/
def readPair : List Char → Option (Nat × List Char)
  | a :: b :: rest =>
    if a.isDigit && b.isDigit then some (10 * digitValue a + digitValue b, rest) else none
  | _ => none

def twoDigits (n : Nat) : List Char := [Nat.digitChar (n / 10 % 10), Nat.digitChar (n % 10)]

def isLeapYear (y : Nat) : Bool := y % 4 == 0 && (y % 100 != 0 || y % 400 == 0)

def daysIn (year month : Nat) : Nat :=
  if month = 2 then if isLeapYear year then 29 else 28
  else if month ∈ [4, 6, 9, 11] then 30
  else 31

/-- Reads a date of the form `yyyy-mm-dd`. -/
def readDate (cs : List Char) : Option (List Char × List Char) := do
  let (century, cs) ← readPair cs
  let (years, cs) ← readPair cs
  let '-' :: cs := cs | none
  let (month, cs) ← readPair cs
  let '-' :: cs := cs | none
  let (day, cs) ← readPair cs
  guard (1 ≤ month ∧ month ≤ 12 ∧ 1 ≤ day ∧ day ≤ daysIn (100 * century + years) month)
  return (twoDigits century ++ twoDigits years ++ '-' :: twoDigits month ++ '-' :: twoDigits day,
    cs)

/-- Which hours and offsets there are. -/
structure Clock where
  lastHour : Nat
  hasOffset : Nat → Nat → Bool

/-- Hours to the 23rd, in offsets also. -/
def Clock.strict : Clock := ⟨23, fun hours minutes => hours ≤ 23 && minutes ≤ 59⟩

/-- Hours to the 24th, and offsets of up to 24 hours in all. -/
def Clock.lenient : Clock := ⟨24, fun hours minutes => 60 * hours + minutes ≤ 24 * 60⟩

/-- The digits of a fraction of a second that are kept. -/
def normalFraction (ds : List Char) : List Char :=
  let kept := ((ds.take 9).reverse.dropWhile (· == '0')).reverse
  if kept = [] then [] else '.' :: kept

/-- Reads a fraction of a second, if there is one. -/
def readFraction : List Char → Option (List Char × List Char)
  | '.' :: rest =>
    let ds := rest.takeWhile Char.isDigit
    if ds = [] then none else some (normalFraction ds, rest.dropWhile Char.isDigit)
  | cs => some ([], cs)

/-- Reads a time of the form `hh:mm:ss`, with an optional fraction. A leap second is allowed. -/
def readTime (clock : Clock) (cs : List Char) : Option (List Char × List Char) := do
  let (hour, cs) ← readPair cs
  let ':' :: cs := cs | none
  let (minute, cs) ← readPair cs
  let ':' :: cs := cs | none
  let (second, cs) ← readPair cs
  let (fraction, cs) ← readFraction cs
  guard (hour ≤ clock.lastHour ∧ minute ≤ 59 ∧ second ≤ 60)
  return (twoDigits hour ++ ':' :: twoDigits minute ++ ':' :: twoDigits second ++ fraction, cs)

/-- Reads an offset: `Z`, or a sign with hours and minutes. No offset has a plus. -/
def readOffset (clock : Clock) : List Char → Option (List Char × List Char)
  | 'Z' :: rest | 'z' :: rest => some (['Z'], rest)
  | sign :: rest =>
    if sign = '+' ∨ sign = '-' then do
      let (hours, cs) ← readPair rest
      let ':' :: cs := cs | none
      let (minutes, cs) ← readPair cs
      guard (clock.hasOffset hours minutes)
      let total := 60 * hours + minutes
      let shown := if total = 0 then '+' else sign
      return (shown :: twoDigits (total / 60) ++ ':' :: twoDigits (total % 60), cs)
    else some ([], sign :: rest)
  | [] => some ([], [])

/-- Reads a time and an optional offset. -/
def readTimeWithOffset (clock : Clock) (cs : List Char) : Option (List Char × List Char) := do
  let (time, cs) ← readTime clock cs
  let (offset, cs) ← readOffset clock cs
  return (time ++ offset, cs)

/-- Reads the time and the offset after a date, if a letter or a space is followed by a digit. -/
def readTimeAfterDate : List Char → Option (List Char × List Char)
  | separator :: c :: rest =>
    if separator ∈ ['T', 't'] ∨ (separator = ' ' ∧ c.isDigit) then
      (readTimeWithOffset .strict (c :: rest)).map fun p => ('T' :: p.1, p.2)
    else some ([], separator :: c :: rest)
  | cs => some ([], cs)

/-- Reads a date with an optional time, or a time. -/
def readMoment (cs : List Char) : Option (List Char × List Char) :=
  match readDate cs with
  | some (date, cs) => (readTimeAfterDate cs).map fun p => (date ++ p.1, p.2)
  | none => readTime .strict cs

/-- The normal form of a moment that is all of a text. -/
def normalMoment? (cs : List Char) : Option (List Char) :=
  let read : Option (List Char × List Char) := match readDate cs with
    | some (date, separator :: rest) =>
      if separator ∈ ['T', 't', ' '] then
        (readTimeWithOffset .lenient rest).map fun p => (date ++ 'T' :: p.1, p.2)
      else none
    | some (date, []) => some (date, [])
    | none => readTime .lenient cs
  (read.filter fun p => p.2.isEmpty).map (·.1)

end NodeDecl.Toml
