import VersionedContent.Text.Hidden

/-!
The quoted form of a text in diagnostics: the text between quotation marks, with a backslash before
quotes and backslashes, short forms for the common control characters, and a number for every
character that is not shown as itself.
-/

set_option autoImplicit false

namespace VersionedContent.Text

/-- The characters that stand for one character of a quoted text. -/
def quotedChar (c : Char) : List Char :=
  if c = '\x00' then ['\\', '0']
  else if c = '\t' then ['\\', 't']
  else if c = '\n' then ['\\', 'n']
  else if c = '\r' then ['\\', 'r']
  else if c = '\\' then ['\\', '\\']
  else if c = '"' then ['\\', '"']
  else if isHidden c then '\\' :: 'u' :: '\x7b' :: (Nat.toDigits 16 c.toNat ++ ['\x7d'])
  else [c]

/-- A text between quotation marks, with its special characters escaped. -/
def quoted (s : String) : String :=
  String.ofList ('"' :: (s.toList.flatMap quotedChar ++ ['"']))

end VersionedContent.Text
