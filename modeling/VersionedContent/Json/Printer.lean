import VersionedContent.Json.Value

/-!
Written forms of JSON values: compact, with nothing between the tokens, and pretty, with one member
or item a line and two spaces of indentation. Strings escape quotes, backslashes and the control
characters below the space, and nothing else.
-/

set_option autoImplicit false

namespace VersionedContent.Json

/-- The characters that stand for one character of a string. -/
def escapedChar (c : Char) : List Char :=
  if c = '"' then ['\\', '"']
  else if c = '\\' then ['\\', '\\']
  else if c = '\x08' then ['\\', 'b']
  else if c = '\x0c' then ['\\', 'f']
  else if c = '\n' then ['\\', 'n']
  else if c = '\r' then ['\\', 'r']
  else if c = '\t' then ['\\', 't']
  else if c.toNat < 32 then
    ['\\', 'u', '0', '0', (c.toNat / 16).digitChar, (c.toNat % 16).digitChar]
  else [c]

/-- A string between quotation marks. -/
def renderString (s : String) : List Char := '"' :: (s.toList.flatMap escapedChar ++ ['"'])

mutual

/-- The compact form of a value. -/
def compact : Json → List Char
  | .null => ['n', 'u', 'l', 'l']
  | .bool true => ['t', 'r', 'u', 'e']
  | .bool false => ['f', 'a', 'l', 's', 'e']
  | .number n => n.render
  | .string s => renderString s
  | .array [] => ['[', ']']
  | .array (v :: rest) => '[' :: (compact v ++ compactItems rest)
  | .object [] => ['\x7b', '\x7d']
  | .object ((k, v) :: rest) =>
    '\x7b' :: (renderString k ++ ':' :: (compact v ++ compactMembers rest))

/-- The items of an array after the first, and its end. -/
def compactItems : List Json → List Char
  | [] => [']']
  | v :: rest => ',' :: (compact v ++ compactItems rest)

/-- The members of an object after the first, and its end. -/
def compactMembers : List (String × Json) → List Char
  | [] => ['\x7d']
  | (k, v) :: rest => ',' :: (renderString k ++ ':' :: (compact v ++ compactMembers rest))

end

/-- A line break and the indentation of the next line. -/
def newLine (indent : Nat) : List Char := '\n' :: List.replicate (2 * indent) ' '

mutual

/-- The pretty form of a value that stands at some level of indentation. -/
def pretty (indent : Nat) : Json → List Char
  | .null => ['n', 'u', 'l', 'l']
  | .bool true => ['t', 'r', 'u', 'e']
  | .bool false => ['f', 'a', 'l', 's', 'e']
  | .number n => n.render
  | .string s => renderString s
  | .array [] => ['[', ']']
  | .array (v :: rest) =>
    '[' :: (newLine (indent + 1) ++ (pretty (indent + 1) v ++ prettyItems indent rest))
  | .object [] => ['\x7b', '\x7d']
  | .object ((k, v) :: rest) =>
    '\x7b' :: (newLine (indent + 1) ++ (renderString k ++ ':' :: ' ' ::
      (pretty (indent + 1) v ++ prettyMembers indent rest)))

/-- The items of an array after the first, and its end. -/
def prettyItems (indent : Nat) : List Json → List Char
  | [] => newLine indent ++ [']']
  | v :: rest =>
    ',' :: (newLine (indent + 1) ++ (pretty (indent + 1) v ++ prettyItems indent rest))

/-- The members of an object after the first, and its end. -/
def prettyMembers (indent : Nat) : List (String × Json) → List Char
  | [] => newLine indent ++ ['\x7d']
  | (k, v) :: rest =>
    ',' :: (newLine (indent + 1) ++ (renderString k ++ ':' :: ' ' ::
      (pretty (indent + 1) v ++ prettyMembers indent rest)))

end

/-- The compact text of a value. -/
def toText (v : Json) : String := String.ofList (compact v)

/-- The pretty text of a value. -/
def toPrettyText (v : Json) : String := String.ofList (pretty 0 v)

end VersionedContent.Json
