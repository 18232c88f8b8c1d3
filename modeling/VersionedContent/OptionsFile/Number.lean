import VersionedContent.OptionsFile.Text

/-!
Numbers of options files. A whole number fits 64 bits with sign and may be written in base two,
eight, ten or sixteen. A real number has a fraction or an exponent, or is infinity or no number. A
single underscore may stand between two digits.

No option takes a real number, so only its extent is read. One that rounds to infinity is refused
unless it has a minus sign.
-/

set_option autoImplicit false

namespace VersionedContent.OptionsFile

/-- The number that digits in a base stand for. -/
def ofDigits (base : Nat) (digits : List Nat) : Nat := digits.foldl (fun n d ↦ n * base + d) 0

/-- The digits at the front of a text, with single underscores between them. -/
def digitsFrom (base : Nat) : Bool → List Char → List Nat × List Char
  | _, [] => ([], [])
  | afterDigit, c :: rest =>
    match digit? base c with
    | some d =>
      let (ds, rest) := digitsFrom base true rest
      (d :: ds, rest)
    | none =>
      if c = '_' ∧ afterDigit ∧ (rest.head?.bind (digit? base)).isSome then
        digitsFrom base false rest
      else ([], c :: rest)

/-- One or more digits. -/
def digits? (base : Nat) : Reader (List Nat) := fun cs ↦
  let (ds, rest) := digitsFrom base false cs
  if ds.isEmpty then none else some (ds, rest)

/-- Decimal digits of which the first is no zero, or a single zero. -/
def decimal? : Reader (List Nat) := fun cs ↦ do
  let (ds, rest) ← digits? 10 cs
  if ds.head? = some 0 ∧ 1 < ds.length then none else some (ds, rest)

/-- The sign at the front of a number: whether it is negative. -/
def sign : List Char → Bool × List Char
  | '-' :: rest => (true, rest)
  | '+' :: rest => (false, rest)
  | cs => (false, cs)

/-- A whole number. -/
def whole? : Reader Int := fun cs ↦ do
  let (n, rest) ← match cs with
    | '0' :: 'x' :: rest => (digits? 16 rest).map fun (ds, rest) ↦ ((ofDigits 16 ds : Int), rest)
    | '0' :: 'o' :: rest => (digits? 8 rest).map fun (ds, rest) ↦ ((ofDigits 8 ds : Int), rest)
    | '0' :: 'b' :: rest => (digits? 2 rest).map fun (ds, rest) ↦ ((ofDigits 2 ds : Int), rest)
    | cs =>
      let (negative, rest) := sign cs
      (decimal? rest).map fun (ds, rest) ↦
        ((if negative then -(ofDigits 10 ds : Int) else ofDigits 10 ds), rest)
  if Int64.minValue.toInt ≤ n ∧ n ≤ Int64.maxValue.toInt then some (n, rest) else none

/-- The fraction of a number, if it has one. -/
def fraction? : Reader (Option (List Nat))
  | '.' :: rest => (digits? 10 rest).map fun (ds, rest) ↦ (some ds, rest)
  | cs => some (none, cs)

/-- The exponent of a number, if it has one. -/
def exponent? : Reader (Option Int)
  | 'e' :: rest | 'E' :: rest =>
    let (negative, rest) := sign rest
    (digits? 10 rest).map fun (ds, rest) ↦
      (some (if negative then -(ofDigits 10 ds : Int) else ofDigits 10 ds), rest)
  | cs => some (none, cs)

/-- Whether digits times a power of ten round to infinity: they reach the middle between the largest
double and the next power of two. That middle has 309 digits. -/
def isHuge (digits : List Nat) (exponent : Int) : Bool :=
  let digits := digits.dropWhile (· == 0)
  let places := digits.length + exponent
  if digits.isEmpty || decide (places < 309) then false
  else if 309 < places then true
  else decide ((Nat.pow 2 1024 - Nat.pow 2 970) * Nat.pow 10 (-exponent).toNat ≤
    ofDigits 10 digits * Nat.pow 10 exponent.toNat)

/-- The text after a real number. -/
def afterReal? (cs : List Char) : Option (List Char) :=
  let (negative, cs) := sign cs
  match cs with
  | 'i' :: 'n' :: 'f' :: rest | 'n' :: 'a' :: 'n' :: rest => some rest
  | cs => do
    let (whole, rest) ← decimal? cs
    let (fraction, rest) ← fraction? rest
    let (exponent, rest) ← exponent? rest
    let decimals := fraction.getD []
    if (fraction.isNone && exponent.isNone) ||
        !negative && isHuge (whole ++ decimals) (exponent.getD 0 - decimals.length) then none
    else some rest

end VersionedContent.OptionsFile
