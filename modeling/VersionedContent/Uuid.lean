/-!
Universally unique identifiers: 32 hexadecimal digits. They are written in lower case with hyphens
after 8, 12, 16 and 20 digits, and read in that form, in braces, after `urn:uuid:`, or without
hyphens, in any letter case.
-/

set_option autoImplicit false

namespace VersionedContent

/-- A universally unique identifier, given by its hexadecimal digits. -/
structure Uuid where
  digits : List (Fin 16)
  length_digits : digits.length = 32
deriving DecidableEq

namespace Uuid

/-- The identifier of zeros. -/
def nil : Uuid := ⟨List.replicate 32 0, by simp⟩

instance : Inhabited Uuid := ⟨nil⟩

/-- The identifier with a number's last 32 hexadecimal digits. -/
def ofNat (n : Nat) : Uuid :=
  ⟨(List.range 32).map fun i ↦ Fin.ofNat 16 (n / Nat.pow 16 (31 - i)), by simp⟩

/-- The identifier of a random number: two of its digits tell that it is one. -/
def ofRandom (n : Nat) : Uuid :=
  ⟨(ofNat n).digits.mapIdx fun i d ↦
      if i = 12 then 4 else if i = 16 then Fin.ofNat 16 (8 + d.val % 4) else d,
    by rw [List.length_mapIdx, (ofNat n).length_digits]⟩

/-- The written form of a hexadecimal digit. -/
def digitChar (d : Fin 16) : Char := d.val.digitChar

/-- The value of a hexadecimal digit in either case. -/
def digit? (c : Char) : Option (Fin 16) :=
  if '0' ≤ c ∧ c ≤ '9' then some (Fin.ofNat 16 (c.toNat - '0'.toNat))
  else if 'a' ≤ c ∧ c ≤ 'f' then some (Fin.ofNat 16 (c.toNat - 'a'.toNat + 10))
  else if 'A' ≤ c ∧ c ≤ 'F' then some (Fin.ofNat 16 (c.toNat - 'A'.toNat + 10))
  else none

/-- Lengths of the groups of digits between hyphens. -/
def groups : List Nat := [8, 4, 4, 4, 12]

/-- Characters in groups of given lengths, with hyphens between them. -/
def hyphenate : List Nat → List Char → List Char
  | [], _ => []
  | [n], cs => cs.take n
  | n :: rest, cs => cs.take n ++ '-' :: hyphenate rest (cs.drop n)

/-- The characters of groups of given lengths with hyphens between them, if they are so laid out. -/
def unhyphenate : List Nat → List Char → Option (List Char)
  | [], cs => if cs.isEmpty then some [] else none
  | [n], cs => if cs.length = n then some cs else none
  | n :: rest, cs =>
    match cs.drop n with
    | '-' :: tail => (unhyphenate rest tail).map (cs.take n ++ ·)
    | _ => none

/-- The written form of an identifier. -/
def toText (u : Uuid) : String := String.ofList (hyphenate groups (u.digits.map digitChar))

/-- The identifier with given digits, if there are 32 of them. -/
def ofDigits? (cs : List Char) : Option Uuid := do
  let digits ← cs.mapM digit?
  if h : digits.length = 32 then return ⟨digits, h⟩ else none

/-- A text without the letters `urn:uuid:` at its front, in either case. -/
def dropUrn? (cs : List Char) : Option (List Char) :=
  if (cs.take 9).map Char.toLower = ['u', 'r', 'n', ':', 'u', 'u', 'i', 'd', ':'] then
    some (cs.drop 9)
  else none

/-- The text between braces. -/
def dropBraces? (cs : List Char) : Option (List Char) :=
  match cs with
  | '\x7b' :: rest => if rest.getLast? = some '\x7d' then some rest.dropLast else none
  | _ => none

/-- Reads an identifier in any of its forms. Only a plain hyphenated one may stand in braces or
after `urn:uuid:`. -/
def ofText? (s : String) : Option Uuid :=
  let cs := s.toList
  if cs.length = 32 then ofDigits? cs
  else
    let inner := (dropUrn? cs).or (dropBraces? cs)
    (unhyphenate groups (inner.getD cs)).bind ofDigits?

end Uuid

end VersionedContent
