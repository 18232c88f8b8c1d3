import VersionedContent.Churn
import VersionedContent.Json.Printer
import VersionedContent.Outline

/-!
The records in which stores report on loads, changes of content types, counters, collection passes
and runs of writes, and in which outlines are exchanged. Times are no part of a report; the record of
a pass takes one when there is one to tell.
-/

set_option autoImplicit false

namespace VersionedContent

open Json (ofNat ofOption)

/-- The record of a load. -/
def LoadReport.toJson (r : LoadReport) : Json := .object [
  ("applied", ofNat r.applied),
  ("skipped", ofNat r.skipped),
  ("missing_parent", ofNat r.missingParent),
  ("missing_content_type", ofNat r.missingContentType)]

/-- The record of a change of content types. -/
def TypeRebuild.toJson (r : TypeRebuild) : Json := .object [
  ("removed_types", ofNat r.removedTypes),
  ("refreshed_types", ofNat r.refreshedTypes),
  ("removed_nodes", ofNat r.removedNodes),
  ("rebound_nodes", ofNat r.reboundNodes),
  ("kits", r.kits.toJson)]

/-- The record of a clock's counters. -/
def Clock.Status.toJson (s : Clock.Status) : Json := .object [
  ("live", ofNat s.live),
  ("floor", ofNat s.floor),
  ("dirty", .bool s.dirty),
  ("queued_snapshots", ofNat s.queuedSnapshots)]

/-- The record of a collection pass, with the microseconds it took if they are told. -/
def CollectStats.toJson (s : CollectStats) (micros : Option Nat) : Json := .object <| [
  ("floor", ofNat s.floor),
  ("released_snapshots", ofNat s.releasedSnapshots),
  ("entries_examined", ofNat s.entriesExamined),
  ("entries_pruned", ofNat s.entriesPruned),
  ("keys_removed", ofNat s.keysRemoved)] ++ micros.toList.map fun n ↦ ("elapsed", ofNat n)

/-- The record of a store's counters, with the microseconds of its last pass if they are told. -/
def ContentStore.Stats.toJson (s : ContentStore.Stats) (micros : Option Nat) : Json := .object [
  ("kind", s.kind.toJson),
  ("generations", s.generations.toJson),
  ("node_keys", ofNat s.nodeKeys),
  ("root_keys", ofNat s.rootKeys),
  ("content_type_keys", ofNat s.contentTypeKeys),
  ("collection_passes", ofNat s.collectionPasses),
  ("last_collection", ofOption (·.toJson micros) s.lastCollection)]

/-- The record of activity counters. -/
def Metrics.toJson (m : Metrics) : Json := .object [
  ("snapshots_created", ofNat m.snapshotsCreated),
  ("snapshots_reused", ofNat m.snapshotsReused),
  ("kits_applied", ofNat m.kitsApplied),
  ("kits_skipped_missing_parent", ofNat m.kitsSkippedMissingParent),
  ("kits_skipped_other", ofNat m.kitsSkippedOther),
  ("kits_skipped", ofNat m.kitsSkipped),
  ("collections", ofNat m.collections),
  ("entries_pruned", ofNat m.entriesPruned),
  ("keys_removed", ofNat m.keysRemoved)]

/-- The record of a run of writes that took so many milliseconds, and its last pass so many
microseconds. -/
def Churn.Report.toJson (r : Churn.Report) (millis micros : Nat) : Json := .object [
  ("writes", ofNat r.writes),
  ("snapshots_checked", ofNat r.snapshotsChecked),
  ("inconsistent_snapshots", ofNat r.inconsistentSnapshots),
  ("collection_passes", ofNat r.collectionPasses),
  ("final_collection", r.finalCollection.toJson (some micros)),
  ("node_keys", ofNat r.nodeKeys),
  ("elapsed_ms", ofNat millis)]

namespace OutlineEntry

mutual

/-- The record of an entry. An entry without children does not mention them. -/
def toJson : OutlineEntry → Json
  | .mk id name type handle sortOrder published children =>
    .object <| [
      ("id", uint32Json id.val),
      ("name", ofOption .string name),
      ("content_type", uint32Json type.val),
      ("content_type_alias", .string handle),
      ("sort_order", .number (.int sortOrder.toInt)),
      ("published", .bool published)] ++ childrenMember children

/-- The member for the entries below an entry, if there are any. -/
def childrenMember : List OutlineEntry → List (String × Json)
  | [] => []
  | e :: rest => [("children", .array (e.toJson :: listToJson rest))]

/-- The records of several entries. -/
def listToJson : List OutlineEntry → List Json
  | [] => []
  | e :: rest => e.toJson :: listToJson rest

end

end OutlineEntry

end VersionedContent
