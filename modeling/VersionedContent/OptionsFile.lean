import VersionedContent.Failure
import VersionedContent.Json.Decoder
import VersionedContent.OptionsFile.Line

/-!
Options files. A file may set `collector_thread_name` to a text, and `collect` to a table of `auto`
and `min_gen_delta`, which can be written under a header, by dotted keys, in braces, or as an array
of the two values. No other key is accepted, and none twice. Values of that array after the second
are not used, but have to be well formed.
-/

set_option autoImplicit false

namespace VersionedContent.OptionsFile

/-- Where the collection options of a file come from. -/
inductive CollectSource
  | none
  /-- Dotted keys at the top. -/
  | dotted
  /-- A header, or a value under the key as a whole. -/
  | whole

/-- What the lines of a file have set so far. -/
structure Settings where
  collectorName : Option String
  auto : Option Bool
  minGenDelta : Option Nat
  source : CollectSource
  /-- Whether the lines stand under the header of the collection options. -/
  underHeader : Bool

/-- Nothing set. -/
def Settings.start : Settings := ⟨Option.none, Option.none, Option.none, .none, false⟩

/-- Sets one collection option. -/
def Settings.collect? (s : Settings) (key : List String) (v : Setting) : Option Settings :=
  match key, v with
  | ["auto"], .flag b => if s.auto.isNone then some { s with auto := some b } else Option.none
  | ["min_gen_delta"], .number n =>
    if s.minGenDelta.isNone ∧ 0 ≤ n then some { s with minGenDelta := some n.toNat }
    else Option.none
  | _, _ => Option.none

/-- Sets the collection options from the values of an array, in their order. -/
def Settings.collectItems? (s : Settings) : List Setting → Option Settings
  | [] => some s
  | [auto] => s.collect? ["auto"] auto
  | auto :: minGenDelta :: _ => do
    (← s.collect? ["auto"] auto).collect? ["min_gen_delta"] minGenDelta

/-- Takes one more line into account. -/
def Settings.add? (s : Settings) : Line → Option Settings
  | .header ["collect"] =>
    match s.source with
    | .none => some { s with source := .whole, underHeader := true }
    | _ => Option.none
  | .header _ => Option.none
  | .setting key v =>
    if s.underHeader then s.collect? key v
    else
      match key, v with
      | ["collector_thread_name"], .text name =>
        if s.collectorName.isNone then some { s with collectorName := some name } else Option.none
      | ["collect"], v =>
        match s.source, v with
        | .none, .items vs => { s with source := .whole }.collectItems? vs
        | .none, .table ms =>
          ms.foldlM (fun s (key, v) ↦ s.collect? key v) { s with source := .whole }
        | _, _ => Option.none
      | "collect" :: key, v =>
        match s.source with
        | .whole => Option.none
        | _ => { s with source := .dotted }.collect? key v
      | _, _ => Option.none

/-- The options that a file's settings give, in place of the default ones. -/
def Settings.options (s : Settings) : StoreOptions where
  collect :=
    ⟨s.auto.getD CollectOptions.default.auto,
      s.minGenDelta.getD CollectOptions.default.minGenDelta⟩
  collectorName := s.collectorName.getD StoreOptions.default.collectorName

/-- The settings of a text, which may begin with a byte order mark. -/
def settings? (s : String) : Option Settings := do
  let cs := match s.toList with
    | '\ufeff' :: rest => rest
    | cs => cs
  (← lines? (cs.length + 1) cs).foldlM Settings.add? Settings.start

/-- Reads options from a text. -/
def parse (s : String) : Except Failure StoreOptions :=
  match settings? s with
  | some settings => settings.options.validate.mapError .invalid
  | Option.none => .error .config

end VersionedContent.OptionsFile

namespace VersionedContent.CollectOptions

open Json (Decoder)

/-- The collection options read so far. -/
structure Parts where
  auto : Option Bool
  minGenDelta : Option Nat

/-- Reads collection options from a record, whose fields may be missing but not be others. -/
def decoder : Decoder CollectOptions :=
  Decoder.record [
      .of "auto" .bool fun x (p : Parts) ↦ { p with auto := some x },
      .of "min_gen_delta" .nat64 fun x p ↦ { p with minGenDelta := some x }]
    true ⟨none, none⟩
    fun p ↦ some ⟨p.auto.getD default.auto, p.minGenDelta.getD default.minGenDelta⟩

end VersionedContent.CollectOptions
