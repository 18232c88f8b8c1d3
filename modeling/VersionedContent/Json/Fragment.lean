import VersionedContent.Json.Value

/-!
Reading JSON from a text that may stop making sense at any point. A fragment is what the text holds
from some place on, up to the first place where it is no JSON any more; what it means, and which
problem counts, is decided by the one who takes it apart from left to right.

Strings and numbers carry two verdicts, for they are checked less strictly when a reader only passes
over them: then a number may be too large, and a string may hold half a surrogate pair or bytes
that encode no character.
-/

set_option autoImplicit false

namespace VersionedContent.Json

/-- What can be wrong with a JSON document. -/
inductive Problem
  /-- The text breaks the rules of JSON. -/
  | malformed
  /-- The text ends too early. -/
  | truncated
  /-- The text is JSON, but not the value that is due. -/
  | mistyped
deriving DecidableEq, Inhabited, Repr

/-- One place of a text: a character, or a byte that is part of none. -/
abbrev Glyph := Option Char

/-- The glyphs of a text. -/
def glyphs (s : String) : List Glyph := s.toList.map some

/-- A string as it stands in a text. -/
structure Quote where
  /-- The string, or the first problem for a reader of its value. -/
  value : Except Problem String
  /-- The first problem for a reader that passes over it. -/
  skipped : Option Problem

/-- What a text holds, up to the first place where it is no JSON. -/
inductive Fragment
  /-- Null, a truth value, or the problem in the spelling of one. -/
  | word (value : Except Problem (Option Bool))
  | number (value : Except Problem Number) (skipped : Option Problem)
  | string (quote : Quote)
  /-- Items, and the problem where neither a comma nor the end follows them. -/
  | array (items : List Fragment) (stop : Option Problem)
  /-- Members, and the problem where neither a comma nor the end follows them. -/
  | object (members : List (Quote × Fragment)) (stop : Option Problem)
  /-- No value begins here. -/
  | missing (problem : Problem)

namespace Fragment

/-- Whether a glyph is white space between tokens. -/
def isGap (g : Glyph) : Bool := g ∈ [some ' ', some '\n', some '\t', some '\r']

/-- The text from the next token on. -/
def token (gs : List Glyph) : List Glyph := gs.dropWhile isGap

/-- The problem at a place where something else should stand: the text ends, or it is malformed. -/
def unexpected : List Glyph → Problem
  | [] => .truncated
  | _ :: _ => .malformed

/-- The value of a decimal digit. -/
def digit? : Glyph → Option Nat
  | some c => if '0' ≤ c ∧ c ≤ '9' then some (c.toNat - '0'.toNat) else none
  | none => none

/-- The digits at the front of a text, and what follows. -/
def digits : List Glyph → List Nat × List Glyph
  | [] => ([], [])
  | g :: rest =>
    match digit? g with
    | some d =>
      let (ds, rest) := digits rest
      (d :: ds, rest)
    | none => ([], g :: rest)

/-- The value of a hexadecimal digit. -/
def hexDigit? : Glyph → Option Nat
  | some c =>
    if '0' ≤ c ∧ c ≤ '9' then some (c.toNat - '0'.toNat)
    else if 'a' ≤ c ∧ c ≤ 'f' then some (c.toNat - 'a'.toNat + 10)
    else if 'A' ≤ c ∧ c ≤ 'F' then some (c.toNat - 'A'.toNat + 10)
    else none
  | none => none

/-- The 16 bit unit that four hexadecimal digits give. -/
def unit? (a b c d : Glyph) : Option Nat := do
  return ((← hexDigit? a) * 16 + (← hexDigit? b)) * 256 + ((← hexDigit? c) * 16 + (← hexDigit? d))

/-- One piece of a string: a character, a 16 bit unit given by number, or a stray byte. -/
inductive Piece
  | char (c : Char)
  | unit (n : Nat)
  | stray

/-- The character that a letter after a backslash stands for. -/
def escape? : Glyph → Option Char
  | some '"' => some '"'
  | some '\\' => some '\\'
  | some '/' => some '/'
  | some 'b' => some '\x08'
  | some 'f' => some '\x0c'
  | some 'n' => some '\n'
  | some 'r' => some '\r'
  | some 't' => some '\t'
  | _ => none

/-- Number of bytes that a glyph takes in a text. -/
def width : Glyph → Nat
  | some c => c.utf8Size
  | none => 1

/-- The pieces of a string after its opening quotation mark, and the text after the closing one or
the problem met before it. A unit needs four bytes, so it is cut short only by the end of the
text. -/
def pieces : List Glyph → List Piece × Except Problem (List Glyph)
  | [] => ([], .error .truncated)
  | some '"' :: rest => ([], .ok rest)
  | some '\\' :: some 'u' :: a :: b :: c :: d :: rest =>
    match unit? a b c d with
    | some n =>
      let (ps, ending) := pieces rest
      (.unit n :: ps, ending)
    | none => ([], .error .malformed)
  | some '\\' :: some 'u' :: short =>
    let bytes := short.foldl (fun bytes g ↦ bytes + width g) 0
    ([], .error (if bytes < 4 then .truncated else .malformed))
  | some '\\' :: g :: rest =>
    match escape? g with
    | some c =>
      let (ps, ending) := pieces rest
      (.char c :: ps, ending)
    | none => ([], .error .malformed)
  | [some '\\'] => ([], .error .truncated)
  | some c :: rest =>
    if c.toNat < 32 then ([], .error .malformed)
    else
      let (ps, ending) := pieces rest
      (.char c :: ps, ending)
  | none :: rest =>
    let (ps, ending) := pieces rest
    (.stray :: ps, ending)

/-- Whether a 16 bit unit is the first half of a pair. -/
def isLeading (n : Nat) : Bool := decide (0xd800 ≤ n) && decide (n < 0xdc00)

/-- Whether a 16 bit unit is the second half of a pair. -/
def isTrailing (n : Nat) : Bool := decide (0xdc00 ≤ n) && decide (n < 0xe000)

/-- Puts the pieces of a string together. Stray bytes show only when the string is closed; half a
pair shows where it stands, unless the text ends right after it. -/
def assemble (ending : Option Problem) : List Piece → (clean : Bool) → Except Problem (List Char)
  | [], clean =>
    match ending with
    | some p => .error p
    | none => if clean then .ok [] else .error .malformed
  | .char c :: rest, clean => (assemble ending rest clean).map (c :: ·)
  | .stray :: rest, _ => assemble ending rest false
  | .unit n :: .unit m :: rest, clean =>
    if isLeading n then
      if isTrailing m then
        (assemble ending rest clean).map
          (Char.ofNat ((n - 0xd800) * 0x400 + (m - 0xdc00) + 0x10000) :: ·)
      else .error .malformed
    else if isTrailing n then .error .malformed
    else (assemble ending (.unit m :: rest) clean).map (Char.ofNat n :: ·)
  | .unit n :: rest, clean =>
    if isLeading n then .error (if rest.isEmpty then ending.getD .malformed else .malformed)
    else if isTrailing n then .error .malformed
    else (assemble ending rest clean).map (Char.ofNat n :: ·)

/-- Reads a string after its opening quotation mark; the text that follows is given when nothing
keeps a reader from passing over the string. -/
def readQuote (gs : List Glyph) : Quote × Option (List Glyph) :=
  match pieces gs with
  | (ps, .ok rest) => (⟨(assemble none ps true).map String.ofList, none⟩, some rest)
  | (ps, .error p) => (⟨(assemble (some p) ps true).map String.ofList, some p⟩, none)

/-- A number that cannot be read on: for a reader that only passes over it, the end of the text
counts as a malformed number too. -/
def brokenNumber (rest : List Glyph) : Fragment × Option (List Glyph) :=
  (.number (.error (unexpected rest)) (some .malformed), none)

/-- A number in full, and the text after it. -/
def wholeNumber (w : Number.Written) (rest : List Glyph) : Fragment × Option (List Glyph) :=
  (.number (w.value?.elim (.error .malformed) .ok) none, some rest)

/-- Reads the exponent of a number, if there is one. -/
def readExponent (w : Number.Written) (gs : List Glyph) : Fragment × Option (List Glyph) :=
  match gs with
  | some 'e' :: rest | some 'E' :: rest =>
    let (negative, rest) : Bool × List Glyph := match rest with
      | some '-' :: rest => (true, rest)
      | some '+' :: rest => (false, rest)
      | _ => (false, rest)
    match digits rest with
    | ([], _) => brokenNumber rest
    | (ds, rest) => wholeNumber { w with exponent := some (negative, ds) } rest
  | _ => wholeNumber w gs

/-- Reads the fraction and the exponent of a number, if there are any. -/
def readFraction (w : Number.Written) (gs : List Glyph) : Fragment × Option (List Glyph) :=
  match gs with
  | some '.' :: rest =>
    match digits rest with
    | ([], _) => brokenNumber rest
    | (ds, rest) => readExponent { w with fraction := some ds } rest
  | _ => readExponent w gs

/-- Reads a number after its sign. A zero is not followed by digits. -/
def readNumber (negative : Bool) (gs : List Glyph) : Fragment × Option (List Glyph) :=
  match digits gs with
  | ([], _) => brokenNumber gs
  | (0 :: _ :: _, _) => brokenNumber [none]
  | (ds, rest) => readFraction ⟨negative, ds, none, none⟩ rest

/-- Reads the rest of a word. -/
def readWord (value : Option Bool) : List Char → List Glyph → Fragment × Option (List Glyph)
  | [], gs => (.word (.ok value), some gs)
  | _ :: _, [] => (.word (.error .truncated), none)
  | c :: cs, g :: gs =>
    if g = some c then readWord value cs gs else (.word (.error .malformed), none)

mutual

/-- Reads a value, and gives the text after it when the value can be passed over. The first argument
bounds the number of tokens. -/
def read : Nat → List Glyph → Fragment × Option (List Glyph)
  | 0, _ => (.missing .truncated, none)
  | fuel + 1, gs =>
    match token gs with
    | some 'n' :: rest => readWord none ['u', 'l', 'l'] rest
    | some 't' :: rest => readWord (some true) ['r', 'u', 'e'] rest
    | some 'f' :: rest => readWord (some false) ['a', 'l', 's', 'e'] rest
    | some '-' :: rest => readNumber true rest
    | some '"' :: rest =>
      let (quote, rest) := readQuote rest
      (.string quote, rest)
    | some '[' :: rest =>
      match token rest with
      | [] => (.array [] (some .truncated), none)
      | some ']' :: rest => (.array [] none, some rest)
      | rest =>
        let (items, stop, rest) := readItems fuel rest
        (.array items stop, rest)
    | some '\x7b' :: rest =>
      match token rest with
      | some '\x7d' :: rest => (.object [] none, some rest)
      | some '"' :: rest =>
        let (members, stop, rest) := readMembers fuel rest
        (.object members stop, rest)
      | rest => (.object [] (some (unexpected rest)), none)
    | rest =>
      match rest.head?.bind digit? with
      | some _ => readNumber false rest
      | none => (.missing (unexpected rest), none)

/-- Reads the items of an array from the next one on. -/
def readItems : Nat → List Glyph → List Fragment × Option Problem × Option (List Glyph)
  | 0, _ => ([], some .truncated, none)
  | fuel + 1, gs =>
    match read fuel gs with
    | (item, none) => ([item], none, none)
    | (item, some rest) =>
      match token rest with
      | some ']' :: rest => ([item], none, some rest)
      | some ',' :: rest =>
        match token rest with
        | [] => ([item, .missing .truncated], none, none)
        | some ']' :: _ => ([item, .missing .malformed], none, none)
        | rest =>
          let (items, stop, rest) := readItems fuel rest
          (item :: items, stop, rest)
      | rest => ([item], some (unexpected rest), none)

/-- Reads the members of an object from the next one on, whose opening quotation mark has been
read. -/
def readMembers : Nat → List Glyph → List (Quote × Fragment) × Option Problem × Option (List Glyph)
  | 0, _ => ([], some .truncated, none)
  | fuel + 1, gs =>
    match readQuote gs with
    | (key, none) => ([(key, .missing .malformed)], none, none)
    | (key, some rest) =>
      match token rest with
      | some ':' :: rest =>
        match read fuel rest with
        | (value, none) => ([(key, value)], none, none)
        | (value, some rest) =>
          match token rest with
          | some '\x7d' :: rest => ([(key, value)], none, some rest)
          | some ',' :: rest =>
            match token rest with
            | some '"' :: rest =>
              let (members, stop, rest) := readMembers fuel rest
              ((key, value) :: members, stop, rest)
            | rest =>
              let p := unexpected rest
              ([(key, value), (⟨.error p, some p⟩, .missing p)], none, none)
          | rest => ([(key, value)], some (unexpected rest), none)
      | rest => ([(key, .missing (unexpected rest))], none, none)

end

/-- Reads the value at the front of a text. An opening bracket takes two steps, any other glyph at
most one. -/
def ofGlyphs (gs : List Glyph) : Fragment × Option (List Glyph) := read (2 * gs.length + 2) gs

mutual

/-- The first problem for a reader that passes over a fragment. -/
def skip : Fragment → Option Problem
  | .word (.ok _) => none
  | .word (.error p) => some p
  | .number _ skipped => skipped
  | .string quote => quote.skipped
  | .array items stop => (skipItems items).or stop
  | .object members stop => (skipMembers members).or stop
  | .missing p => some p

/-- The first problem among items. -/
def skipItems : List Fragment → Option Problem
  | [] => none
  | item :: rest => (skip item).or (skipItems rest)

/-- The first problem among members. -/
def skipMembers : List (Quote × Fragment) → Option Problem
  | [] => none
  | (key, value) :: rest => key.skipped.or ((skip value).or (skipMembers rest))

end

mutual

/-- The fragment of a text that holds a value in full. -/
def ofValue : Json → Fragment
  | .null => .word (.ok none)
  | .bool b => .word (.ok (some b))
  | .number n => .number (.ok n) none
  | .string s => .string ⟨.ok s, none⟩
  | .array items => .array (ofItems items) none
  | .object members => .object (ofMembers members) none

/-- The fragments of items. -/
def ofItems : List Json → List Fragment
  | [] => []
  | v :: rest => ofValue v :: ofItems rest

/-- The fragments of members. -/
def ofMembers : List (String × Json) → List (Quote × Fragment)
  | [] => []
  | (k, v) :: rest => (⟨.ok k, none⟩, ofValue v) :: ofMembers rest

end

end Fragment

end VersionedContent.Json
