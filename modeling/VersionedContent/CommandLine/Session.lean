import VersionedContent.CommandLine.Arguments
import VersionedContent.OptionsFile
import VersionedContent.Report

/-!
What the commands do. A command reads the files it names, works on a store of its own, and answers
with a result to be printed, and perhaps a file to be written. Store options are read first; the
first failure is the answer.
-/

set_option autoImplicit false

namespace VersionedContent.CommandLine

/-- What stands under a file name. -/
inductive FileContent
  | missing
  /-- Something that can be opened but not read. -/
  | directory
  | text (glyphs : List Json.Glyph)

/-- What a command finds around it. -/
structure Surroundings where
  file : String → FileContent
  /-- Keys and dates of new kits. -/
  mint : Mint

/-- What a command has found out or done. -/
inductive Result
  | loaded (types : TypeRebuild) (kits : LoadReport) (stats : ContentStore.Stats)
  | outline (entries : List OutlineEntry)
  | counted (stats : ContentStore.Stats)
  /-- The dump is still to be written. -/
  | generated (path : String) (dump : KitDump)
  | churned (report : Churn.Report)

namespace Surroundings

/-- Reads store options from a file, all of which has to be characters. -/
def options (s : Surroundings) : Option String → Except Failure StoreOptions
  | none => .ok StoreOptions.default
  | some path =>
    match s.file path with
    | .text glyphs =>
      match glyphs.mapM id with
      | some cs => OptionsFile.parse (String.ofList cs)
      | none => .error .file
    | _ => .error .file

/-- Reads a dump from a file. What can be opened but not read is no dump. -/
def dump (s : Surroundings) (path : String) : Except Failure KitDump :=
  match s.file path with
  | .text glyphs => KitDump.ofGlyphs glyphs
  | .directory => .error (.json .malformed)
  | .missing => .error .file

/-- A new store with a dump in it. -/
def loaded (s : Surroundings) (path : String) (options : StoreOptions) :
    Except Failure (ContentStore × TypeRebuild × LoadReport) := do
  let dump ← s.dump path
  let store ← (ContentStore.create .content options).mapError .invalid
  return dump.applyTo store

/-- A generated dump. -/
def generated (s : Surroundings) (shape : SyntheticTree) : Except Failure KitDump :=
  (shape.dump s.mint).mapError .invalid

/-- Runs a command. -/
def run (s : Surroundings) (invocation : Invocation) : Except Failure Result := do
  let options ← s.options invocation.config
  match invocation.command with
  | .load path =>
    let (store, types, kits) ← s.loaded path options
    return .loaded types kits store.stats
  | .tree path preview maxDepth =>
    let (store, _) ← s.loaded path options
    let (store, pin) := store.snapshot
    return .outline ((store.viewAt pin.generation).outline preview maxDepth)
  | .stats path =>
    let (store, _) ← s.loaded path options
    return .counted store.touch.1.collect.1.stats
  | .generate path shape => return .generated path (← s.generated shape)
  | .churn path shape rounds readers seed =>
    let dump ← match path with
      | some path => s.dump path
      | none => s.generated shape
    let store ← (ContentStore.create .content options).mapError .invalid
    let draws := Churn.draws (UInt64.ofNat seed) dump.kits rounds
    let (_, report) ← (Churn.run ⟨readers, s.mint.now⟩ draws dump store).mapError .invalid
    return .churned report

end Surroundings

/-- Times that are printed with a result. -/
structure Elapsed where
  /-- Milliseconds of the whole run. -/
  run : Nat
  /-- Microseconds of the last collection pass. -/
  pass : Nat

/-- The lines on a store's counters. -/
def statsText (s : ContentStore.Stats) (elapsed : Elapsed) : String :=
  let g := s.generations
  let head := s!"Store ({s.kind.name}): live={g.live} floor={g.floor} dirty={g.dirty} " ++
    s!"queued_snapshots={g.queuedSnapshots}\n" ++
    s!"Keys: nodes={s.nodeKeys} roots={s.rootKeys} content_types={s.contentTypeKeys}\n" ++
    s!"Collector: passes={s.collectionPasses}"
  match s.lastCollection with
  | none => s!"{head}\n"
  | some last =>
    s!"{head} last_floor={last.floor} examined={last.entriesExamined} " ++
      s!"pruned={last.entriesPruned} keys_removed={last.keysRemoved} micros={elapsed.pass}\n"

namespace Result

/-- The file that a result asks to be written, with its text. -/
def file? : Result → Option (String × String)
  | .generated path dump => some (path, dump.toFileText)
  | _ => none

/-- The printed form of a result for people. -/
def toText (elapsed : Elapsed) : Result → String
  | .loaded types kits stats =>
    s!"Content types: refreshed={types.refreshedTypes} removed={types.removedTypes}\n" ++
      s!"Kits: applied={kits.applied} skipped={kits.skipped} (missing_parent={kits.missingParent} " ++
      s!"missing_content_type={kits.missingContentType})\n" ++ statsText stats elapsed
  | .outline entries => OutlineEntry.toText entries
  | .counted stats => statsText stats elapsed
  | .generated path dump =>
    s!"Wrote {dump.kits.length} kits and {dump.contentTypes.length} content types to {path}\n"
  | .churned r =>
    let last := r.finalCollection
    s!"Churn: writes={r.writes} snapshots_checked={r.snapshotsChecked} " ++
      s!"inconsistent={r.inconsistentSnapshots} passes={r.collectionPasses} " ++
      s!"elapsed_ms={elapsed.run}\n" ++
      s!"Final collection: floor={last.floor} pruned={last.entriesPruned} " ++
      s!"keys_removed={last.keysRemoved} node_keys={r.nodeKeys}\n"

/-- The record of a result. -/
def toJson (elapsed : Elapsed) : Result → Json
  | .loaded types kits stats => .object [
    ("content_types", types.toJson),
    ("kits", kits.toJson),
    ("stats", stats.toJson (some elapsed.pass))]
  | .outline entries => .array (OutlineEntry.listToJson entries)
  | .counted stats => stats.toJson (some elapsed.pass)
  | .generated path dump => .object [
    ("content_types", .ofNat dump.contentTypes.length),
    ("kits", .ofNat dump.kits.length),
    ("path", .string path)]
  | .churned report => report.toJson elapsed.run elapsed.pass

/-- What is printed of a result. -/
def render (r : Result) (format : OutputFormat) (elapsed : Elapsed) : String :=
  match format with
  | .text => r.toText elapsed
  | .json => (r.toJson elapsed).toPrettyText ++ "\n"

/-- The exit code with a result: a run that met an inconsistent snapshot has failed. -/
def exitCode : Result → UInt32
  | .churned report => if report.inconsistentSnapshots = 0 then 0 else 2
  | _ => 0

/-- The answer once the file of a result has been written, or could not be. -/
def settled (r : Result) (written : Bool) : Except Failure Result :=
  if written then .ok r else .error .file

end Result

/-- The name and version of the program. -/
def versionText : String := "contentcache 0.1.0\n"

/-- How the program is used. -/
def usageText : String :=
  "Usage: contentcache [--config FILE] [--format text|json] COMMAND\n\n" ++
    "Commands:\n  load DUMP\n  " ++
    "tree [--preview] [--max-depth LEVELS] DUMP\n  " ++
    "stats DUMP\n  " ++
    "generate --out FILE [--roots N] [--fanout N] [--depth N]\n  " ++
    "churn [--dump FILE] [--roots N] [--fanout N] [--depth N] [--rounds N] [--readers N] " ++
    "[--seed N]\n"

namespace Halt

/-- What is printed in place of a result. A mistake prints nothing there. -/
def text : Halt → String
  | .mistake => ""
  | .version => versionText
  | .usage => usageText

/-- The exit code without a command. -/
def exitCode : Halt → UInt32
  | .mistake => 2
  | _ => 0

end Halt

end VersionedContent.CommandLine
