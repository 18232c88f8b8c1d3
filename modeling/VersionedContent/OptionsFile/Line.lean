import VersionedContent.OptionsFile.Moment
import VersionedContent.OptionsFile.Number

/-!
Lines of options files: settings `key = value`, headers `[key]`, blanks and comments. A key is made
of bare words or quoted texts, joined by dots. Arrays and tables in braces nest to a limit, and no
key of a table begins another, for the shorter one names a value and not a table to add to.
-/

set_option autoImplicit false

namespace VersionedContent.OptionsFile

/-- A value in an options file. -/
inductive Setting
  | text (s : String)
  | flag (b : Bool)
  | number (n : Int)
  | real
  /-- A date, a time of day, or both. -/
  | moment
  | items (settings : List Setting)
  | table (settings : List (List String × Setting))

/-- One line that is not blank. -/
inductive Line
  /-- A setting under a key. -/
  | setting (key : List String) (value : Setting)
  /-- The header of the settings that follow. -/
  | header (key : List String)

/-- How many arrays and tables may stand inside one another, and how many parts a key may have. -/
def nestingLimit : Nat := 79

/-- One part of a key. -/
def keyPart? (cs : List Char) : Option (String × List Char) :=
  match cs with
  | '"' :: rest =>
    (quoted? '"' true (rest.length + 1) rest).map fun (s, rest) ↦ (String.ofList s, rest)
  | '\'' :: rest =>
    (quoted? '\'' false (rest.length + 1) rest).map fun (s, rest) ↦ (String.ofList s, rest)
  | cs =>
    let word := cs.takeWhile isBare
    if word.isEmpty then none else some (String.ofList word, cs.drop word.length)

/-- A key of up to so many parts, joined by dots. -/
def keyParts? : Nat → Reader (List String)
  | 0, _ => none
  | limit + 1, cs => do
    let (part, rest) ← keyPart? (skipGap cs)
    match skipGap rest with
    | '.' :: rest =>
      let (parts, rest) ← keyParts? limit rest
      return (part :: parts, rest)
    | rest => return ([part], rest)

/-- A key. -/
def key? : Reader (List String) := keyParts? nestingLimit

/-- A value that holds no others. -/
def scalar? (cs : List Char) : Option (Setting × List Char) :=
  match cs with
  | '"' :: _ | '\'' :: _ => (text? cs).map fun (s, rest) ↦ (.text s, rest)
  | 't' :: 'r' :: 'u' :: 'e' :: rest => some (.flag true, rest)
  | 'f' :: 'a' :: 'l' :: 's' :: 'e' :: rest => some (.flag false, rest)
  | cs =>
    match afterMoment? cs, afterReal? cs with
    | some rest, _ => some (.moment, rest)
    | none, some rest => some (.real, rest)
    | none, none => (whole? cs).map fun (n, rest) ↦ (.number n, rest)

/-- The rest of an array, which may stand on several lines and end with a comma. -/
def items? (value? : Reader Setting) : Nat → Reader (List Setting)
  | 0, _ => none
  | fuel + 1, cs => do
    match ← skipFiller (fuel + 1) cs with
    | ']' :: rest => return ([], rest)
    | rest =>
      let (v, rest) ← value? rest
      match ← skipFiller (fuel + 1) rest with
      | ']' :: rest => return ([v], rest)
      | ',' :: rest =>
        let (vs, rest) ← items? value? fuel rest
        return (v :: vs, rest)
      | _ => none

/-- The rest of a table in braces, from its next setting on. -/
def members? (value? : Reader Setting) : Nat → Reader (List (List String × Setting))
  | 0, _ => none
  | fuel + 1, cs => do
    let (k, rest) ← key? cs
    match rest with
    | '=' :: rest =>
      let (v, rest) ← value? (skipGap rest)
      match skipGap rest with
      | '\x7d' :: rest => return ([(k, v)], rest)
      | ',' :: rest =>
        let (ms, rest) ← members? value? fuel rest
        return ((k, v) :: ms, rest)
      | _ => none
    | _ => none

/-- Whether no key of a table begins another. -/
def areApart (settings : List (List String × Setting)) : Bool :=
  decide (settings.Pairwise fun (k, _) (l, _) ↦ !k.isPrefixOf l && !l.isPrefixOf k)

/-- The rest of a table in braces. -/
def table? (value? : Reader Setting) : Reader (List (List String × Setting)) := fun cs ↦
  match skipGap cs with
  | '\x7d' :: rest => some ([], rest)
  | cs => (members? value? (cs.length + 1) cs).filter (areApart ·.1)

/-- A value with up to so many arrays and tables inside one another. -/
def nestedValue? : Nat → Reader Setting
  | limit + 1, '[' :: rest =>
    (items? (nestedValue? limit) (rest.length + 1) rest).map fun (vs, rest) ↦ (.items vs, rest)
  | limit + 1, '\x7b' :: rest =>
    (table? (nestedValue? limit) rest).map fun (ms, rest) ↦ (.table ms, rest)
  | _, cs => scalar? cs

/-- A value. -/
def value? : Reader Setting := nestedValue? nestingLimit

/-- A line that is not blank. -/
def line? (cs : List Char) : Option (Line × List Char) :=
  match cs with
  | '[' :: rest => do
    let (k, rest) ← key? rest
    match rest with
    | ']' :: rest => return (.header k, rest)
    | _ => none
  | cs => do
    let (k, rest) ← key? cs
    match rest with
    | '=' :: rest =>
      let (v, rest) ← value? (skipGap rest)
      return (.setting k v, rest)
    | _ => none

/-- The lines of a text that are not blank. -/
def lines? : Nat → List Char → Option (List Line)
  | 0, _ => none
  | fuel + 1, cs => do
    match ← skipFiller (fuel + 1) cs with
    | [] => return []
    | rest =>
      let (line, rest) ← line? rest
      let rest ← skipComment? (skipGap rest)
      if rest.isEmpty then return [line]
      else
        let lines ← lines? fuel (← lineBreak? rest)
        return line :: lines

end VersionedContent.OptionsFile
