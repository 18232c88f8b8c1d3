import VersionedContent.Clock
import VersionedContent.VersionMap
import VersionedContent.Options

/-!
What every store has besides its tables: the clock, the options, the record of finished collection
passes and the activity counters. A pass first moves the floor past released pins and then prunes
the tables at it; making a fresh snapshot may start one.
-/

set_option autoImplicit false

namespace VersionedContent

/-- Statistics of one collection pass. -/
structure CollectStats where
  floor : Generation
  releasedSnapshots : Nat
  entriesExamined : Nat
  entriesPruned : Nat
  keysRemoved : Nat
deriving DecidableEq, Inhabited

/-- Activity counters. -/
structure Metrics where
  snapshotsCreated : Nat
  snapshotsReused : Nat
  kitsApplied : Nat
  kitsSkippedMissingParent : Nat
  kitsSkippedOther : Nat
  collections : Nat
  entriesPruned : Nat
  keysRemoved : Nat
deriving DecidableEq, Inhabited

namespace Metrics

/-- Counters before any activity. -/
def zero : Metrics := ⟨0, 0, 0, 0, 0, 0, 0, 0⟩

/-- Kits skipped for any reason. -/
def kitsSkipped (m : Metrics) : Nat := m.kitsSkippedMissingParent + m.kitsSkippedOther

/-- The counters of two stores that report to the same place. -/
instance : Add Metrics :=
  ⟨fun a b ↦
    { snapshotsCreated := a.snapshotsCreated + b.snapshotsCreated
      snapshotsReused := a.snapshotsReused + b.snapshotsReused
      kitsApplied := a.kitsApplied + b.kitsApplied
      kitsSkippedMissingParent := a.kitsSkippedMissingParent + b.kitsSkippedMissingParent
      kitsSkippedOther := a.kitsSkippedOther + b.kitsSkippedOther
      collections := a.collections + b.collections
      entriesPruned := a.entriesPruned + b.entriesPruned
      keysRemoved := a.keysRemoved + b.keysRemoved }⟩

/-- Records a snapshot request. -/
def snapshotIssued (m : Metrics) (reused : Bool) : Metrics :=
  if reused then { m with snapshotsReused := m.snapshotsReused + 1 }
  else { m with snapshotsCreated := m.snapshotsCreated + 1 }

/-- Records a finished collection pass. -/
def collectionFinished (m : Metrics) (s : CollectStats) : Metrics :=
  { m with
    collections := m.collections + 1
    entriesPruned := m.entriesPruned + s.entriesPruned
    keysRemoved := m.keysRemoved + s.keysRemoved }

end Metrics

/-- The part of a store that does not depend on what it holds. -/
structure Engine where
  clock : Clock
  options : StoreOptions
  /-- Finished collection passes. -/
  passes : Nat
  /-- Statistics of the last finished pass. -/
  lastPass : Option CollectStats
  metrics : Metrics

namespace Engine

/-- The engine of an empty store. -/
def new (options : StoreOptions) : Engine := ⟨Clock.new, options, 0, none, Metrics.zero⟩

/-- The engine with another clock. -/
def withClock (e : Engine) (clock : Clock) : Engine := { e with clock }

/-- Hands out a pin, and tells whether the floor lags so far behind a fresh one that a pass is to
run. -/
def issue (e : Engine) : Engine × Pin × Bool :=
  let reused := e.clock.reusable?.isSome
  let (clock, pin) := e.clock.issue
  ({ e with clock, metrics := e.metrics.snapshotIssued reused }, pin,
    !reused && e.options.collect.auto && clock.collectionDue e.options.collect.minGenDelta)

/-- The statistics of a pass that moved the floor and pruned at it. -/
def passStats (advance : Clock.FloorAdvance) (t : PruneTally) : CollectStats where
  floor := advance.floor
  releasedSnapshots := advance.released
  entriesExamined := t.examined
  entriesPruned := t.pruned
  keysRemoved := t.removed

/-- Runs a collection pass: moves the floor, and records what pruning the tables at it counts
for. -/
def collect (e : Engine) (tally : Generation → PruneTally) : Engine × CollectStats :=
  let (clock, advance) := e.clock.advanceFloor
  let stats := passStats advance (tally advance.floor)
  ({ e with
      clock
      passes := e.passes + 1
      lastPass := some stats
      metrics := e.metrics.collectionFinished stats }, stats)

end Engine

end VersionedContent
