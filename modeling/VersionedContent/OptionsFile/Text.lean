/-!
Characters and texts of options files. A text stands in single or double quotes on one line, or in
three of them on several lines; between double quotes a backslash begins an escape. Comments begin
with `#` and end with their line.
-/

set_option autoImplicit false

namespace VersionedContent.OptionsFile

/-- Reads something at the front of a text; gives it with the rest. -/
abbrev Reader (α : Type) := List Char → Option (α × List Char)

/-- Whether a character separates tokens within a line. -/
def isGap (c : Char) : Bool := c == ' ' || c == '\t'

/-- A text without the blanks at its front. -/
def skipGap (cs : List Char) : List Char := cs.dropWhile isGap

/-- Whether a character may stand in comments and texts. -/
def isPrintable (c : Char) : Bool := c == '\t' || decide (32 ≤ c.toNat) && c.toNat != 127

/-- The rest of a text after a line break, if it begins with one. -/
def lineBreak? : List Char → Option (List Char)
  | '\n' :: rest => some rest
  | '\r' :: '\n' :: rest => some rest
  | _ => none

/-- Whether a character may stand in a key without quotes. -/
def isBare (c : Char) : Bool :=
  decide ('a' ≤ c ∧ c ≤ 'z') || decide ('A' ≤ c ∧ c ≤ 'Z') || decide ('0' ≤ c ∧ c ≤ '9') ||
    c == '_' || c == '-'

/-- The value of a digit in a base up to sixteen. -/
def digit? (base : Nat) (c : Char) : Option Nat :=
  let value? : Option Nat :=
    if '0' ≤ c ∧ c ≤ '9' then some (c.toNat - '0'.toNat)
    else if 'a' ≤ c ∧ c ≤ 'f' then some (c.toNat - 'a'.toNat + 10)
    else if 'A' ≤ c ∧ c ≤ 'F' then some (c.toNat - 'A'.toNat + 10)
    else none
  value?.filter (· < base)

/-- The character given by so many hexadecimal digits. -/
def codePoint? (width : Nat) : Reader Char := fun cs ↦ do
  let digits ← (cs.take width).mapM (digit? 16)
  let n := digits.foldl (fun n d ↦ n * 16 + d) 0
  if digits.length = width ∧ n.isValidChar then some (Char.ofNat n, cs.drop width) else none

/-- The character that an escape after a backslash stands for. -/
def escape? : Reader Char
  | 'b' :: rest => some ('\x08', rest)
  | 't' :: rest => some ('\t', rest)
  | 'n' :: rest => some ('\n', rest)
  | 'f' :: rest => some ('\x0c', rest)
  | 'r' :: rest => some ('\r', rest)
  | '"' :: rest => some ('"', rest)
  | '\\' :: rest => some ('\\', rest)
  | 'u' :: rest => codePoint? 4 rest
  | 'U' :: rest => codePoint? 8 rest
  | _ => none

/-- The rest of a quoted text of one line. In double quotes a backslash begins an escape. -/
def quoted? (mark : Char) (escapes : Bool) : Nat → Reader (List Char)
  | 0, _ | _, [] => none
  | fuel + 1, c :: rest =>
    if c = mark then some ([], rest)
    else if escapes && c == '\\' then do
      let (e, rest) ← escape? rest
      let (cs, rest) ← quoted? mark escapes fuel rest
      return (e :: cs, rest)
    else if isPrintable c then do
      let (cs, rest) ← quoted? mark escapes fuel rest
      return (c :: cs, rest)
    else none

/-- A text without the blanks and line breaks at its front. -/
def skipLines : Nat → List Char → List Char
  | 0, cs => cs
  | fuel + 1, cs =>
    match lineBreak? (skipGap cs) with
    | some rest => skipLines fuel rest
    | none => skipGap cs

/-- The rest of a text of several lines, which three quotation marks end. Up to two more before them
belong to the text. In double quotes a backslash begins an escape, or joins the line to the next
text. -/
def block? (mark : Char) (escapes : Bool) : Nat → Reader (List Char)
  | 0, _ | _, [] => none
  | fuel + 1, c :: rest =>
    if c = mark then
      let marks := (rest.takeWhile (· == mark)).length + 1
      let rest := rest.dropWhile (· == mark)
      if 3 ≤ marks then
        if marks ≤ 5 then some (List.replicate (marks - 3) mark, rest) else none
      else do
        let (cs, rest) ← block? mark escapes fuel rest
        return (List.replicate marks mark ++ cs, rest)
    else if escapes && c == '\\' then
      if (lineBreak? (skipGap rest)).isSome then block? mark escapes fuel (skipLines fuel rest)
      else do
        let (e, rest) ← escape? rest
        let (cs, rest) ← block? mark escapes fuel rest
        return (e :: cs, rest)
    else
      match lineBreak? (c :: rest) with
      | some rest => do
        let (cs, rest) ← block? mark escapes fuel rest
        return ('\n' :: cs, rest)
      | none =>
        if isPrintable c then do
          let (cs, rest) ← block? mark escapes fuel rest
          return (c :: cs, rest)
        else none

/-- A text value of any form. -/
def text? (cs : List Char) : Option (String × List Char) :=
  let read (mark : Char) (escapes : Bool) (rest : List Char) : Option (String × List Char) :=
    (match rest with
      | a :: b :: rest' =>
        if a = mark ∧ b = mark then
          block? mark escapes (rest'.length + 1) ((lineBreak? rest').getD rest')
        else quoted? mark escapes (rest.length + 1) rest
      | _ => quoted? mark escapes (rest.length + 1) rest).map fun (s, rest) ↦
        (String.ofList s, rest)
  match cs with
  | '"' :: rest => read '"' true rest
  | '\'' :: rest => read '\'' false rest
  | _ => none

/-- The rest of a line after a comment, or the line itself if it holds none. -/
def skipComment? : List Char → Option (List Char)
  | '#' :: rest =>
    let rest := rest.dropWhile isPrintable
    if rest.isEmpty ∨ (lineBreak? rest).isSome then some rest else none
  | cs => some cs

/-- The text after blanks, line breaks and comments. -/
def skipFiller : Nat → List Char → Option (List Char)
  | 0, _ => none
  | fuel + 1, cs => do
    let rest ← skipComment? (skipGap cs)
    match lineBreak? rest with
    | some rest => skipFiller fuel rest
    | none => return rest

end VersionedContent.OptionsFile
