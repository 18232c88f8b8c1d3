/-!
The shortest decimal that reads back as a given double. A finite double is a whole number times a
power of two, and the reals that round to it form an interval, whose ends belong to it exactly when
the whole number is even. For one digit, then two, and so on, the two neighbours of the double on
the grid of that many digits are tried; the first grid with a neighbour in the interval wins, and
of two the nearer one.
-/

set_option autoImplicit false

namespace VersionedContent.Decimal

/-- The decimal `digits * 10 ^ exponent`. -/
structure Scaled where
  digits : Nat
  exponent : Int
deriving DecidableEq

/-- A double of magnitude `significand * 2 ^ exponent`. -/
structure Binary where
  significand : Nat
  exponent : Int
  /-- Whether the double below is only half as far away as the one above. -/
  isBoundary : Bool
deriving DecidableEq

/-- The magnitude of a finite double given by its bits. -/
def Binary.ofBits (bits : UInt64) : Binary :=
  let fraction : Nat := bits.toNat % Nat.pow 2 52
  let biased : Nat := bits.toNat / Nat.pow 2 52 % Nat.pow 2 11
  if biased = 0 then ⟨fraction, -1074, false⟩
  else ⟨fraction + Nat.pow 2 52, (biased : Int) - 1075, fraction == 0 && biased != 1⟩

/-- A value and the interval of reals that round to it, as fractions of one denominator. -/
structure Target where
  value : Nat
  low : Nat
  high : Nat
  unit : Nat
  /-- Whether the ends belong to the interval. -/
  closed : Bool

/-- The interval around a double, in quarters of its last binary place. -/
def Target.ofBinary (b : Binary) : Target :=
  let up := Nat.pow 2 (b.exponent - 2).toNat
  { value := 4 * b.significand * up
    low := (4 * b.significand - if b.isBoundary then 1 else 2) * up
    high := (4 * b.significand + 2) * up
    unit := Nat.pow 2 (2 - b.exponent).toNat
    closed := b.significand % 2 == 0 }

/-- The target measured in powers of ten. -/
def Target.scale (t : Target) (exponent : Int) : Target :=
  let down := Nat.pow 10 (-exponent).toNat
  { t with
    value := t.value * down
    low := t.low * down
    high := t.high * down
    unit := t.unit * Nat.pow 10 exponent.toNat }

/-- Whether a number of units lies in the interval. -/
def Target.admits (t : Target) (count : Nat) : Bool :=
  let x := count * t.unit
  if t.closed then decide (t.low ≤ x) && decide (x ≤ t.high)
  else decide (t.low < x) && decide (x < t.high)

/-- The neighbour of the value in the interval that is nearer, of two equally near ones the even
one. -/
def Target.nearest? (t : Target) : Option Nat :=
  let floor := t.value / t.unit
  let below := t.value - floor * t.unit
  let above := t.unit - below
  match t.admits floor, t.admits (floor + 1) with
  | true, true =>
    some (if below < above ∨ (below = above ∧ floor % 2 = 0) then floor else floor + 1)
  | true, false => some floor
  | false, true => some (floor + 1)
  | false, false => none

/-- Number of decimal digits of a number. -/
def digitCount (n : Nat) : Nat := (Nat.toDigits 10 n).length

/-- Decimal exponent of the leading digit of a target's value. -/
def Target.magnitude (t : Target) : Int :=
  (digitCount (t.value * Nat.pow 10 330 / t.unit) : Int) - 331

/-- Tries the grids of a growing number of digits. -/
def Target.search (t : Target) (magnitude : Int) : Nat → Nat → Scaled
  | 0, count => ⟨(t.scale (magnitude - count)).value / (t.scale (magnitude - count)).unit,
      magnitude - count⟩
  | tries + 1, count =>
    match (t.scale (magnitude - count)).nearest? with
    | some digits => ⟨digits, magnitude - count⟩
    | none => t.search magnitude tries (count + 1)

/-- A decimal without zeros at the end of its digits, of which at most `places` are dropped. -/
def Scaled.trim (s : Scaled) : Nat → Scaled
  | 0 => s
  | places + 1 =>
    if s.digits % 10 = 0 ∧ s.digits ≠ 0 then Scaled.trim ⟨s.digits / 10, s.exponent + 1⟩ places
    else s

/-- The shortest decimal that reads back as the magnitude of a double. -/
def shortest (b : Binary) : Scaled :=
  if b.significand = 0 then ⟨0, 0⟩
  else
    let t := Target.ofBinary b
    (t.search t.magnitude 17 0).trim 20

/-- How decimals are laid out. -/
structure Layout where
  /-- Least exponent of the leading digit that is written positionally. -/
  leastPositional : Int
  /-- Greatest exponent of the leading digit that is written positionally. -/
  greatestPositional : Int

/-- A decimal without a sign. An exponent has its sign and no zeros in front. -/
def Layout.write (l : Layout) (s : Scaled) : List Char :=
  let digits := Nat.toDigits 10 s.digits
  let leading := s.exponent + digits.length - 1
  if l.leastPositional ≤ leading ∧ leading ≤ l.greatestPositional then
    if 0 ≤ leading then
      let whole := leading.toNat + 1
      let fraction := digits.drop whole
      digits.take whole ++ List.replicate (whole - digits.length) '0' ++
        '.' :: if fraction.isEmpty then ['0'] else fraction
    else '0' :: '.' :: (List.replicate (-leading - 1).toNat '0' ++ digits)
  else
    let mantissa := match digits with
      | first :: [] => [first]
      | first :: rest => first :: '.' :: rest
      | [] => []
    mantissa ++ 'e' :: (if leading < 0 then '-' else '+') :: Nat.toDigits 10 leading.natAbs

end VersionedContent.Decimal
