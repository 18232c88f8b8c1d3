import VersionedContent.Engine
import VersionedContent.Retype

/-!
The store of one tree of content or media: four versioned tables that share one clock. A writer
edits the tables at the live generation inside a section; a snapshot is a pin, and shows the tables
as they stood at its generation until its last handle is released.
-/

set_option autoImplicit false

namespace VersionedContent

/-- The versioned tables of a content tree. -/
structure ContentHistory where
  nodes : VersionMap ContentId ContentNode
  roots : VersionMap ContentId Unit
  types : VersionMap ContentTypeId ContentType
  typesByHandle : VersionMap String ContentType

namespace ContentHistory

/-- The tables of an empty tree. -/
def empty : ContentHistory := ⟨.empty, .empty, .empty, .empty⟩

/-- The tables as a generation sees them. -/
def viewAt (h : ContentHistory) (generation : Generation) : ContentView where
  nodes := h.nodes.viewAt generation
  roots := h.roots.viewAt generation
  types := h.types.viewAt generation
  typesByHandle := h.typesByHandle.viewAt generation

/-- The tables as the writer sees them. -/
def liveView (h : ContentHistory) : ContentView where
  nodes := h.nodes.liveView
  roots := h.roots.liveView
  types := h.types.liveView
  typesByHandle := h.typesByHandle.liveView

/-- Drops what no generation at or above the floor can see. -/
def prune (h : ContentHistory) (floor : Generation) : ContentHistory where
  nodes := h.nodes.prune floor
  roots := h.roots.prune floor
  types := h.types.prune floor
  typesByHandle := h.typesByHandle.prune floor

/-- What pruning at a floor counts for, over all four tables. -/
def tally (h : ContentHistory) (floor : Generation) : PruneTally :=
  h.nodes.tally floor + h.roots.tally floor + h.types.tally floor + h.typesByHandle.tally floor

end ContentHistory

/-- Write access to the tables of a tree, at one generation. -/
structure ContentWriter where
  /-- The generation that every write is stamped with. -/
  generation : Generation
  history : ContentHistory
  index : TypeIndex

namespace ContentWriter

/-- The writer with other tables. -/
def modify (w : ContentWriter) (f : ContentHistory → ContentHistory) : ContentWriter :=
  { w with history := f w.history }

instance : LiveTables ContentWriter where
  node? w := w.history.nodes.live?
  setNode w id n := w.modify fun h ↦ { h with nodes := h.nodes.set w.generation id n }
  clearNode w id := w.modify fun h ↦ { h with nodes := h.nodes.clear w.generation id }
  setRoot w id := w.modify fun h ↦ { h with roots := h.roots.set w.generation id () }
  clearRoot w id := w.modify fun h ↦ { h with roots := h.roots.clear w.generation id }
  clearTree w := w.modify fun h ↦
    { h with nodes := h.nodes.clearAll w.generation, roots := h.roots.clearAll w.generation }
  type? w := w.history.types.live?
  setType w id t := w.modify fun h ↦ { h with types := h.types.set w.generation id t }
  clearType w id := w.modify fun h ↦ { h with types := h.types.clear w.generation id }
  types w := w.history.types.liveView.values
  typeNamed? w := w.history.typesByHandle.live?
  setHandle w handle t :=
    w.modify fun h ↦ { h with typesByHandle := h.typesByHandle.set w.generation handle t }
  clearHandle w handle :=
    w.modify fun h ↦ { h with typesByHandle := h.typesByHandle.clear w.generation handle }
  index := ContentWriter.index
  setIndex w index := { w with index }

/-- The state that the writer sees, without its history. -/
def live (w : ContentWriter) : LiveContent := ⟨w.history.liveView, w.index⟩

end ContentWriter

/-- The activity counters after one kit. -/
def Metrics.kitSet (m : Metrics) : KitOutcome → Metrics
  | .skipped .missingParent => { m with kitsSkippedMissingParent := m.kitsSkippedMissingParent + 1 }
  | .skipped _ => { m with kitsSkippedOther := m.kitsSkippedOther + 1 }
  | _ => { m with kitsApplied := m.kitsApplied + 1 }

/-- The activity counters after a batch of kits. -/
def Metrics.kitsLoaded (m : Metrics) (r : LoadReport) : Metrics :=
  { m with
    kitsApplied := m.kitsApplied + r.applied
    kitsSkippedMissingParent := m.kitsSkippedMissingParent + r.missingParent
    kitsSkippedOther := m.kitsSkippedOther + (r.skipped - r.missingParent) }

/-- A store of one tree. -/
structure ContentStore where
  kind : ItemKind
  engine : Engine
  history : ContentHistory
  index : TypeIndex

namespace ContentStore

/-- An empty store, if the options are usable. -/
def create (kind : ItemKind) (options : StoreOptions) : Except Misuse ContentStore := do
  let options ← options.validate
  return ⟨kind, Engine.new options, ContentHistory.empty, TypeIndex.empty⟩

/-- The clock of the store. -/
def clock (s : ContentStore) : Clock := s.engine.clock

/-- The store after a step of its clock. -/
def tick (s : ContentStore) (step : Clock → Clock) : ContentStore :=
  { s with engine := s.engine.withClock (step s.clock) }

/-- Opens a write section. -/
def openSection (s : ContentStore) : ContentStore := s.tick Clock.openSection

/-- Ends the open write section. -/
def closeSection (s : ContentStore) : ContentStore := s.tick Clock.closeSection

/-- Write access, within a section. -/
def writer (s : ContentStore) : ContentWriter := ⟨s.clock.live, s.history, s.index⟩

/-- The store after a writer is done. -/
def commit (s : ContentStore) (w : ContentWriter) : ContentStore :=
  { s with history := w.history, index := w.index }

/-- The store with some activity recorded. -/
def record (s : ContentStore) (f : Metrics → Metrics) : ContentStore :=
  { s with engine := { s.engine with metrics := f s.engine.metrics } }

/-- Runs one edit, within a section, and records what its answer tells of kits. -/
def edit {α : Type} (s : ContentStore) (action : ContentWriter → ContentWriter × α)
    (count : α → Metrics → Metrics) : ContentStore × α :=
  let (w, a) := action s.writer
  ((s.commit w).record (count a), a)

/-- Inserts or updates one node, within a section. -/
def set (s : ContentStore) (k : ContentKit) : ContentStore × KitOutcome :=
  s.edit (Edit.set · k) fun outcome m ↦ m.kitSet outcome

/-- Removes a node with its subtree, within a section. -/
def clear (s : ContentStore) (id : ContentId) : ContentStore × Bool :=
  s.edit (Edit.clear · id) fun _ m ↦ m

/-- Replaces the whole tree, within a section. -/
def setAll (s : ContentStore) (ks : List ContentKit) : ContentStore × LoadReport :=
  s.edit (Edit.setAll · ks) fun report m ↦ m.kitsLoaded report

/-- Replaces a branch, within a section. -/
def setBranch (s : ContentStore) (root : ContentId) (ks : List ContentKit) :
    ContentStore × LoadReport :=
  s.edit (Edit.setBranch · root ks) fun report m ↦ m.kitsLoaded report

/-- Replaces the whole set of content types, within a section. -/
def setAllTypes (s : ContentStore) (types : List ContentType) : ContentStore × TypeRebuild :=
  s.edit (Retype.setAllTypes · types) fun rebuild m ↦ m.kitsLoaded rebuild.kits

/-- Applies a change of content types, within a section. -/
def updateTypes (s : ContentStore) (removed : List ContentTypeId) (refreshed : List ContentType)
    (ks : List ContentKit) : ContentStore × TypeRebuild :=
  s.edit (Retype.updateTypes · removed refreshed ks) fun rebuild m ↦ m.kitsLoaded rebuild.kits

/-- Refreshes the content types that use one of some data types, within a section. -/
def updateDataTypes {ρ : Type} (s : ContentStore) (ids : List DataTypeId)
    (resolve : ρ → ContentType → ρ × Option ContentType) (r : ρ) :
    ContentStore × ρ × TypeRebuild :=
  s.edit (Retype.updateDataTypes · ids resolve r) fun answer m ↦ m.kitsLoaded answer.2.kits

/-- Runs one edit in a section of its own. -/
def write {α : Type} (s : ContentStore) (action : ContentStore → ContentStore × α) :
    ContentStore × α :=
  let (s, a) := action s.openSection
  (s.closeSection, a)

/-- The tree as a generation sees it. -/
def viewAt (s : ContentStore) (generation : Generation) : ContentView := s.history.viewAt generation

/-- The tree as the writer sees it, unfinished writes included. -/
def live (s : ContentStore) : LiveContent := s.writer.live

/-- Runs a collection pass. -/
def collect (s : ContentStore) : ContentStore × CollectStats :=
  let (engine, stats) := s.engine.collect s.history.tally
  ({ s with engine, history := s.history.prune stats.floor }, stats)

/-- Takes a snapshot of the newest complete generation. When the floor lags too far behind a fresh
one, a collection pass runs while it is held. -/
def snapshot (s : ContentStore) : ContentStore × Pin :=
  let (engine, pin, due) := s.engine.issue
  let s := { s with engine }
  (if due then s.collect.1 else s, pin)

/-- A further handle on a snapshot. -/
def clone (s : ContentStore) (pin : Pin) : ContentStore := s.tick (·.clone pin)

/-- Gives up one handle on a snapshot. -/
def release (s : ContentStore) (pin : Pin) : ContentStore := s.tick (·.release pin)

/-- Takes a snapshot and gives it up at once. -/
def touch (s : ContentStore) : ContentStore × Pin :=
  let (s, pin) := s.snapshot
  (s.release pin, pin)

/-- Number of node keys, deletions not yet collected included. -/
def count (s : ContentStore) : Nat := s.history.nodes.size

/-- Engine counters of a store. -/
structure Stats where
  kind : ItemKind
  generations : Clock.Status
  nodeKeys : Nat
  rootKeys : Nat
  contentTypeKeys : Nat
  collectionPasses : Nat
  lastCollection : Option CollectStats
deriving DecidableEq

/-- Current engine counters. -/
def stats (s : ContentStore) : Stats where
  kind := s.kind
  generations := s.clock.status
  nodeKeys := s.history.nodes.size
  rootKeys := s.history.roots.size
  contentTypeKeys := s.history.types.size
  collectionPasses := s.engine.passes
  lastCollection := s.engine.lastPass

/-- Diagnostic text of the store. -/
def describe (s : ContentStore) : String :=
  s!"ContentStore \x7b kind: {s.kind.describe}, status: {s.clock.status.describe} \x7d"

/-- Diagnostic text of a snapshot. -/
def describeSnapshot (s : ContentStore) (pin : Pin) : String :=
  s!"ContentSnapshot \x7b kind: {s.kind.describe}, generation: {pin.generation} \x7d"

end ContentStore

end VersionedContent
