/-!
Characters of a byte sequence. Bytes that encode no character are kept apart, one place each.
-/

set_option autoImplicit false

namespace VersionedContent.Text

/-- The payload of a continuation byte. -/
def tail? (b : UInt8) : Option Nat :=
  if b.toNat / 64 = 2 then some (b.toNat % 64) else none

/-- The character of a code point that must not be encoded in fewer bytes. -/
def char? (least n : Nat) : Option Char :=
  if least ≤ n ∧ n.isValidChar then some (Char.ofNat n) else none

/-- The character that two bytes encode. -/
def char2? (a b : UInt8) : Option Char := do
  if a.toNat / 32 = 6 then char? 0x80 (a.toNat % 32 * 64 + (← tail? b)) else none

/-- The character that three bytes encode. -/
def char3? (a b c : UInt8) : Option Char := do
  if a.toNat / 16 = 14 then
    char? 0x800 ((a.toNat % 16 * 64 + (← tail? b)) * 64 + (← tail? c))
  else none

/-- The character that four bytes encode. -/
def char4? (a b c d : UInt8) : Option Char := do
  if a.toNat / 8 = 30 then
    char? 0x10000 (((a.toNat % 8 * 64 + (← tail? b)) * 64 + (← tail? c)) * 64 + (← tail? d))
  else none

/-- The character that starts with a byte, and how many of the bytes after it belong to it. -/
def head? (a : UInt8) (rest : List UInt8) : Option (Char × Nat) :=
  if a.toNat < 128 then some (Char.ofNat a.toNat, 0)
  else
    match rest with
    | b :: c :: d :: _ =>
      (char2? a b).map (·, 1) <|> (char3? a b c).map (·, 2) <|> (char4? a b c d).map (·, 3)
    | [b, c] => (char2? a b).map (·, 1) <|> (char3? a b c).map (·, 2)
    | [b] => (char2? a b).map (·, 1)
    | [] => none

/-- As `decode`, after as many bytes that belong to a character already read. -/
def decodeAfter : Nat → List UInt8 → List (Option Char)
  | _, [] => []
  | skip + 1, _ :: rest => decodeAfter skip rest
  | 0, a :: rest =>
    match head? a rest with
    | some (ch, more) => some ch :: decodeAfter more rest
    | none => none :: decodeAfter 0 rest

/-- The characters of a byte sequence, with an empty place for every byte that is part of none. -/
def decode (bytes : List UInt8) : List (Option Char) :=
  decodeAfter 0 bytes

/-- The text of a byte sequence in which every byte is part of a character. -/
def ofBytes? (bytes : List UInt8) : Option String :=
  ((decode bytes).mapM id).map String.ofList

end VersionedContent.Text
