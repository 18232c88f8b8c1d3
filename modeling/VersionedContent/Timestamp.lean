/-!
Dates and times with an offset from universal time, to the nanosecond. They are written
`YYYY-MM-DDTHH:MM:SS` with the fraction of the second, without zeros at its end, and the offset, `Z`
when it is zero. On reading, digits beyond nanoseconds are dropped, and a second of 60 stands for
the last nanosecond before it, where a leap second can be: at the end of a month in universal time.
-/

set_option autoImplicit false

namespace VersionedContent

/-- A date and time of day at some offset, in minutes, from universal time. -/
structure Timestamp where
  year : Nat
  month : Nat
  day : Nat
  hour : Nat
  minute : Nat
  second : Nat
  nanosecond : Nat
  offset : Int
deriving DecidableEq, Inhabited, Repr

namespace Timestamp

/-- Whether a year has a 29th of February. -/
def isLeapYear (year : Nat) : Bool := year % 4 == 0 && (year % 100 != 0 || year % 400 == 0)

/-- Number of days of a month. -/
def daysIn (year month : Nat) : Nat :=
  if month = 2 then if isLeapYear year then 29 else 28
  else if month ∈ [4, 6, 9, 11] then 30
  else 31

/-- Whether date, time and offset are ones that a written form can have. -/
def isValid (t : Timestamp) : Bool :=
  decide (t.year < 10000) && decide (1 ≤ t.month) && decide (t.month ≤ 12) &&
    decide (1 ≤ t.day) && decide (t.day ≤ daysIn t.year t.month) &&
    decide (t.hour < 24) && decide (t.minute < 60) && decide (t.second < 60) &&
    decide (t.nanosecond < 1000000000) && decide (t.offset.natAbs < 24 * 60)

/-- Whether the minute is the last one of a month in universal time. As offsets are shorter than a
day, it is then the last minute of the local day or of the day before. -/
def endsMonth (t : Timestamp) : Bool :=
  let minutes : Int := (t.hour * 60 + t.minute : Nat) - t.offset
  if minutes = -1 then t.day == 1
  else if minutes = 24 * 60 - 1 then t.day == daysIn t.year t.month
  else false

/-- The digits of a number, brought to a length by zeros on the left. -/
def padded (width n : Nat) : List Char :=
  List.replicate (width - (Nat.toDigits 10 n).length) '0' ++ Nat.toDigits 10 n

/-- A list without the zeros at its end. -/
def dropTrailingZeros (cs : List Char) : List Char := (cs.reverse.dropWhile (· == '0')).reverse

/-- The written form. -/
def toChars (t : Timestamp) : List Char :=
  padded 4 t.year ++ '-' :: padded 2 t.month ++ '-' :: padded 2 t.day ++
    'T' :: padded 2 t.hour ++ ':' :: padded 2 t.minute ++ ':' :: padded 2 t.second ++
    (if t.nanosecond = 0 then [] else '.' :: dropTrailingZeros (padded 9 t.nanosecond)) ++
    (if t.offset = 0 then ['Z']
      else (if t.offset < 0 then '-' else '+') ::
        (padded 2 (t.offset.natAbs / 60) ++ ':' :: padded 2 (t.offset.natAbs % 60)))

/-- The written form as a text. -/
def toText (t : Timestamp) : String := String.ofList t.toChars

/-- The value of a decimal digit. -/
def digit? (c : Char) : Option Nat :=
  if '0' ≤ c ∧ c ≤ '9' then some (c.toNat - '0'.toNat) else none

/-- Reads a number of exactly so many digits. -/
def number? : Nat → Nat → List Char → Option (Nat × List Char)
  | 0, n, cs => some (n, cs)
  | width + 1, n, c :: cs => do number? width (n * 10 + (← digit? c)) cs
  | _ + 1, _, [] => none

/-- Reads one given character. -/
def literal? (expected : Char) : List Char → Option (List Char)
  | c :: cs => if c = expected then some cs else none
  | [] => none

/-- Reads the fraction of a second, if there is one, as nanoseconds. -/
def fraction? (cs : List Char) : Option (Nat × List Char) :=
  match cs with
  | '.' :: rest =>
    let digits := rest.takeWhile fun c ↦ (digit? c).isSome
    if digits.isEmpty then none
    else
      let leading := digits.take 9
      (number? leading.length 0 leading).map fun (n, _) ↦
        (n * Nat.pow 10 (9 - leading.length), rest.drop digits.length)
  | _ => some (0, cs)

/-- Reads the offset, in minutes, at the end of a text. -/
def offset? : List Char → Option Int
  | ['Z'] | ['z'] => some 0
  | sign :: rest => do
    let (hours, rest) ← number? 2 0 rest
    let rest ← literal? ':' rest
    let (minutes, rest) ← number? 2 0 rest
    if hours ≤ 23 ∧ minutes ≤ 59 ∧ rest = [] then
      if sign = '+' then some (hours * 60 + minutes : Nat)
      else if sign = '-' then some (-(hours * 60 + minutes : Nat))
      else none
    else none
  | [] => none

/-- Reads a written form. Any ASCII character may stand between date and time. -/
def ofChars? (cs : List Char) : Option Timestamp := do
  let (year, cs) ← number? 4 0 cs
  let cs ← literal? '-' cs
  let (month, cs) ← number? 2 0 cs
  let cs ← literal? '-' cs
  let (day, cs) ← number? 2 0 cs
  let separator ← cs.head?
  let (hour, cs) ← number? 2 0 cs.tail
  let cs ← literal? ':' cs
  let (minute, cs) ← number? 2 0 cs
  let cs ← literal? ':' cs
  let (second, cs) ← number? 2 0 cs
  let (nanosecond, cs) ← fraction? cs
  let offset ← offset? cs
  let isLeapSecond := second == 60
  let t : Timestamp :=
    if isLeapSecond then ⟨year, month, day, hour, minute, 59, 999999999, offset⟩
    else ⟨year, month, day, hour, minute, second, nanosecond, offset⟩
  if t.isValid ∧ separator.toNat < 128 ∧ (isLeapSecond → t.endsMonth) then some t else none

/-- Reads a text. -/
def ofText? (s : String) : Option Timestamp := ofChars? s.toList

end Timestamp

end VersionedContent
