import VersionedContent.Decimal.Shortest

/-!
Numbers of a JSON text. Whole numbers that fit 64 bits, with or without sign, are kept exactly;
every other number is a double.

A double is read from the leading digits that fit 64 bits and a power of ten: digits of the whole
part that do not fit raise the power, and digits of the fraction after the first one that does not
fit are dropped. The value is then one product or quotient with that power of ten.
-/

set_option autoImplicit false

namespace VersionedContent.Json

/-- A number: exact, or a double given by its bits. -/
inductive Number
  | int (value : Int)
  | double (bits : UInt64)
deriving DecidableEq, Inhabited, Repr

namespace Number

/-- Doubles are written positionally while their leading digit stands between the fifth decimal
place and the sixteenth place before the point. -/
def layout : Decimal.Layout := ⟨-5, 15⟩

/-- The written form of a number. -/
def render : Number → List Char
  | .int value => (toString value).toList
  | .double bits =>
    let magnitude := layout.write (Decimal.shortest (Decimal.Binary.ofBits bits))
    if bits.toNat < Nat.pow 2 63 then magnitude else '-' :: magnitude

/-- Appends digits to a number while the result fits 64 bits; gives the number and the digits left
over. -/
def takeDigits : Nat → List Nat → Nat × List Nat
  | n, [] => (n, [])
  | n, d :: rest =>
    if n * 10 + d < UInt64.size then takeDigits (n * 10 + d) rest else (n, d :: rest)

/-- The power of ten as a double. -/
def pow10 (n : Nat) : Float := Float.ofScientific 1 false n

/-- A significand times a power of ten, or nothing when it is too large for a double. -/
def scale (significand : Nat) (exponent : Int) : Option Float :=
  let f := significand.toUInt64.toFloat
  if significand = 0 then some 0.0
  else if exponent > 308 then none
  else if 0 ≤ exponent then
    let product := f * pow10 exponent.toNat
    if product.isInf then none else some product
  else if -308 ≤ exponent then some (f / pow10 (-exponent).toNat)
  else if -616 ≤ exponent then some (f / pow10 308 / pow10 (-exponent - 308).toNat)
  else some 0.0

/-- A number as written: sign, digits of the whole part, and where they are given digits of the
fraction and sign and digits of the exponent. -/
structure Written where
  negative : Bool
  whole : List Nat
  fraction : Option (List Nat)
  exponent : Option (Bool × List Nat)

/-- A double with a sign. -/
def signed (negative : Bool) (f : Float) : Number := .double (if negative then -f else f).toBits

/-- The double that a number stands for, or nothing when it is too large. -/
def Written.double? (w : Written) : Option Number :=
  let (leading, excess) := takeDigits 0 w.whole
  let fraction := w.fraction.getD []
  let (significand, dropped) := takeDigits leading fraction
  let start : Int := (excess.length : Int) - ((fraction.length - dropped.length : Nat) : Int)
  match w.exponent with
  | none => (scale significand start).map (signed w.negative)
  | some (negative, digits) =>
    let (exponent, excess) := takeDigits 0 digits
    if excess.isEmpty ∧ exponent < Nat.pow 2 31 then
      (scale significand (if negative then start - exponent else start + exponent)).map
        (signed w.negative)
    else if negative || significand == 0 then some (signed w.negative 0.0)
    else none

/-- The value of a number, or nothing when it is too large. A whole number that does not fit 64
bits is a double, and so is zero with a minus sign. -/
def Written.value? (w : Written) : Option Number :=
  match w.fraction, w.exponent, takeDigits 0 w.whole with
  | none, none, (n, []) =>
    if !w.negative then some (.int n)
    else if 0 < n ∧ n ≤ Nat.pow 2 63 then some (.int (-(n : Int)))
    else w.double?
  | _, _, _ => w.double?

end Number

end VersionedContent.Json
