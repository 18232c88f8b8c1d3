import VersionedContent.Json.Fragment

/-!
Taking fragments apart into typed values. A decoder walks from left to right and answers with the
first problem it meets, or with the value. It is told how many levels of arrays and objects may
still be opened.

A record is an object with its fields in any order, fields of other names being passed over, or an
array of its fields in their own order, from which the last ones may be missing.
-/

set_option autoImplicit false

namespace VersionedContent.Json

/-- Takes a fragment apart, at a place where so many more levels may be opened. -/
abbrev Decoder (α : Type) := Nat → Fragment → Except Problem α

namespace Decoder

/-- How many levels of arrays and objects a document may have. -/
def maxDepth : Nat := 127

/-- The problem with a fragment where a value of another type is due: a word, a number or a string
is read first, and its own problem counts before the wrong type does. -/
def mismatch : Fragment → Problem
  | .word (.error p) | .number (.error p) _ | .string ⟨.error p, _⟩ | .missing p => p
  | _ => .mistyped

/-- Answers with a problem if there is one. -/
def check : Option Problem → Except Problem Unit
  | none => .ok ()
  | some p => .error p

/-- A truth value. -/
def bool : Decoder Bool := fun _ f ↦
  match f with
  | .word (.ok (some b)) => .ok b
  | f => .error (mismatch f)

/-- A whole number, as far as a type holds it. -/
def int {α : Type} (narrow : Int → Option α) : Decoder α := fun _ f ↦
  match f with
  | .number (.ok (.int i)) _ =>
    match narrow i with
    | some a => .ok a
    | none => .error .mistyped
  | f => .error (mismatch f)

/-- A whole number without sign, of 32 bits. -/
def uint32 : Decoder UInt32 :=
  int fun i ↦ if 0 ≤ i ∧ i < UInt32.size then some (UInt32.ofNat i.toNat) else none

/-- A whole number with sign, of 32 bits. -/
def int32 : Decoder Int32 :=
  int fun i ↦
    if Int32.minValue.toInt ≤ i ∧ i ≤ Int32.maxValue.toInt then some (Int32.ofInt i) else none

/-- A whole number without sign, of 64 bits. -/
def nat64 : Decoder Nat := int fun i ↦ if 0 ≤ i ∧ i < UInt64.size then some i.toNat else none

/-- A string. -/
def string : Decoder String := fun _ f ↦
  match f with
  | .string ⟨.ok s, _⟩ => .ok s
  | f => .error (mismatch f)

/-- A string that is the written form of some value. -/
def written {α : Type} (parse : String → Option α) : Decoder α := fun depth f ↦ do
  let s ← string depth f
  (parse s).elim (.error .mistyped) .ok

/-- A value, or null for none. -/
def optional {α : Type} (d : Decoder α) : Decoder (Option α) := fun depth f ↦
  match f with
  | .word (.ok none) => .ok none
  | f => (d depth f).map some

/-- Items one after another. -/
def items {α : Type} (d : Decoder α) (depth : Nat) : List Fragment → Except Problem (List α)
  | [] => .ok []
  | f :: rest => do
    let a ← d depth f
    let as ← items d depth rest
    return a :: as

/-- An array. -/
def list {α : Type} (d : Decoder α) : Decoder (List α) := fun depth f ↦
  match f, depth with
  | .array _ _, 0 => .error .malformed
  | .array fs stop, depth + 1 => do
    let as ← items d depth fs
    check stop
    return as
  | f, _ => .error (mismatch f)

/-- One of some names, or an object with the name as its only member and null as its value. -/
def name {α : Type} (names : List (String × α)) : Decoder α := fun depth f ↦
  match f, depth with
  | .string quote, _ => do
    let s ← quote.value
    (names.lookup s).elim (.error .mistyped) .ok
  | .object _ _, 0 => .error .malformed
  | .object ((key, value) :: rest) stop, _ + 1 => do
    let s ← key.value
    let a ← (names.lookup s).elim (.error .mistyped) .ok
    match value with
    | .word (.ok none) =>
      match rest with
      | [] => check stop
      | _ :: _ => .error .malformed
    | value => .error (mismatch value)
    return a
  | .object [] stop, _ + 1 => .error (stop.getD .malformed)
  | .missing p, _ => .error p
  | _, _ => .error .malformed

mutual

/-- Any value. Objects have their members sorted, the last of several with one key winning. -/
def any (depth : Nat) : Fragment → Except Problem Json
  | .word (.ok none) => .ok .null
  | .word (.ok (some b)) => .ok (.bool b)
  | .word (.error p) => .error p
  | .number value _ => value.map .number
  | .string quote => quote.value.map .string
  | .array fs stop =>
    match depth with
    | 0 => .error .malformed
    | depth + 1 => do
      let vs ← anyItems depth fs
      check stop
      return .array vs
  | .object ms stop =>
    match depth with
    | 0 => .error .malformed
    | depth + 1 => do
      let ms ← anyMembers depth [] ms
      check stop
      return .object ms
  | .missing p => .error p

/-- Any items. -/
def anyItems (depth : Nat) : List Fragment → Except Problem (List Json)
  | [] => .ok []
  | f :: rest => do
    let v ← any depth f
    let vs ← anyItems depth rest
    return v :: vs

/-- Any members, put in order. -/
def anyMembers (depth : Nat) (sorted : List (String × Json)) :
    List (Quote × Fragment) → Except Problem (List (String × Json))
  | [] => .ok sorted
  | (key, f) :: rest => do
    let k ← key.value
    let v ← any depth f
    anyMembers depth (insertMember k v sorted) rest

end

/-- An object of values under any keys, in order. -/
def members : Decoder (List (String × Json)) := fun depth f ↦
  match f, depth with
  | .object _ _, 0 => .error .malformed
  | .object ms stop, depth + 1 => do
    let ms ← anyMembers depth [] ms
    check stop
    return ms
  | f, _ => .error (mismatch f)

/-- A field of a record that is put together from values of the type `σ`. -/
structure Field (σ : Type) where
  name : String
  read : Decoder (σ → σ)

/-- A field whose value is stored as told. -/
def Field.of {σ α : Type} (name : String) (d : Decoder α) (store : α → σ → σ) : Field σ :=
  ⟨name, fun depth f ↦ (d depth f).map store⟩

/-- The members of an object as fields of a record, none of them given twice. Members of other names
are passed over, or refused. -/
def fieldsByName {σ : Type} (fields : List (Field σ)) (strict : Bool) (depth : Nat) :
    List String → σ → List (Quote × Fragment) → Except Problem σ
  | _, s, [] => .ok s
  | seen, s, (key, f) :: rest => do
    let name ← key.value
    match fields.find? (·.name == name) with
    | some field =>
      if name ∈ seen then .error .mistyped
      else
        let store ← field.read depth f
        fieldsByName fields strict depth (name :: seen) (store s) rest
    | none =>
      if strict then .error .mistyped
      else
        check f.skip
        fieldsByName fields strict depth seen s rest

/-- The items of an array as the fields of a record in their order. -/
def fieldsInOrder {σ : Type} (depth : Nat) (stop : Option Problem) :
    List (Field σ) → σ → List Fragment → Except Problem σ
  | [], s, [] => do
    check stop
    return s
  | [], _, _ :: _ => .error .malformed
  | _ :: _, s, [] => do
    check stop
    return s
  | field :: fields, s, f :: rest => do
    let store ← field.read depth f
    fieldsInOrder depth stop fields (store s) rest

/-- A record. It is complete when `finish` can make a value from the fields that were given. -/
def record {σ α : Type} (fields : List (Field σ)) (strict : Bool) (start : σ)
    (finish : σ → Option α) : Decoder α := fun depth f ↦
  match f, depth with
  | .object _ _, 0 | .array _ _, 0 => .error .malformed
  | .object ms stop, depth + 1 => do
    let s ← fieldsByName fields strict depth [] start ms
    check stop
    (finish s).elim (.error .mistyped) .ok
  | .array fs stop, depth + 1 => do
    let s ← fieldsInOrder depth stop fields start fs
    (finish s).elim (.error .mistyped) .ok
  | f, _ => .error (mismatch f)

/-- Decodes a document: one value with nothing but white space after it. -/
def document {α : Type} (d : Decoder α) (gs : List Glyph) : Except Problem α :=
  let (f, rest) := Fragment.ofGlyphs gs
  (d maxDepth f).bind fun a ↦
    match rest.map Fragment.token with
    | some (_ :: _) => .error .malformed
    | _ => .ok a

/-- Decodes a text. -/
def text {α : Type} (d : Decoder α) (s : String) : Except Problem α := document d (glyphs s)

/-- Decodes a value that has been read as a whole. All that can be wrong then is its type. -/
def value {α : Type} (d : Decoder α) (v : Json) : Except Problem α :=
  match d maxDepth (Fragment.ofValue v) with
  | .ok a => .ok a
  | .error _ => .error .mistyped

end Decoder

/-- Reads a value from a text. -/
def parse (s : String) : Except Problem Json := Decoder.text Decoder.any s

end VersionedContent.Json
