import VersionedContent.Timestamp

/-!
Dates and times of day in options files: a date, a time, or both with or without an offset from
universal time. No option takes one, so only its extent is read.
-/

set_option autoImplicit false

namespace VersionedContent.OptionsFile

/-- A number of two digits within bounds. -/
def bounded? (least greatest : Nat) (cs : List Char) : Option (Nat × List Char) :=
  (Timestamp.number? 2 0 cs).filter fun (n, _) ↦ decide (least ≤ n) && decide (n ≤ greatest)

/-- The text after a date. -/
def afterDate? (cs : List Char) : Option (List Char) := do
  let (year, cs) ← Timestamp.number? 4 0 cs
  let (month, cs) ← bounded? 1 12 (← Timestamp.literal? '-' cs)
  let (_, cs) ← bounded? 1 (Timestamp.daysIn year month) (← Timestamp.literal? '-' cs)
  return cs

/-- The text after a time of day, whose second may be a leap second. -/
def afterTime? (cs : List Char) : Option (List Char) := do
  let (_, cs) ← bounded? 0 23 cs
  let (_, cs) ← bounded? 0 59 (← Timestamp.literal? ':' cs)
  let (_, cs) ← bounded? 0 60 (← Timestamp.literal? ':' cs)
  let (_, cs) ← Timestamp.fraction? cs
  return cs

/-- The text after an offset, if it begins with one. -/
def afterOffset? (cs : List Char) : Option (List Char) :=
  match cs with
  | 'Z' :: rest | 'z' :: rest => some rest
  | '+' :: rest | '-' :: rest => do
    let (_, rest) ← bounded? 0 23 rest
    let (_, rest) ← bounded? 0 59 (← Timestamp.literal? ':' rest)
    return rest
  | cs => some cs

/-- The text after a date, a time, or both. A blank after a date belongs to it only if a time
follows. -/
def afterMoment? (cs : List Char) : Option (List Char) :=
  match afterDate? cs with
  | some rest =>
    match rest with
    | 'T' :: time | 't' :: time | ' ' :: time =>
      match afterTime? time with
      | some rest => afterOffset? rest
      | none => some rest
    | rest => some rest
  | none => afterTime? cs

end VersionedContent.OptionsFile
