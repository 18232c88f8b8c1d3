import VersionedContent.Chain

/-!
A table whose keys each carry a chain of versions. The table as one generation sees it, and as the
writer sees it, are plain maps; writing, clearing and pruning act on one chain at a time.
-/

set_option autoImplicit false

namespace VersionedContent

/-- What pruning a table did. -/
structure PruneTally where
  /-- Versions visited, down to the newest one at or below the floor. -/
  examined : Nat
  /-- Versions dropped below that one. -/
  pruned : Nat
  /-- Keys dropped because only a deletion was left of them. -/
  removed : Nat
deriving DecidableEq, Inhabited

instance : Add PruneTally :=
  ⟨fun a b ↦ ⟨a.examined + b.examined, a.pruned + b.pruned, a.removed + b.removed⟩⟩

/-- Nothing examined. -/
def PruneTally.zero : PruneTally := ⟨0, 0, 0⟩

/-- What pruning a chain counts for. -/
def Chain.tally {α : Type} (c : Chain α) (floor : Generation) : PruneTally where
  examined := (c.above floor).length + ((c.below floor).take 1).length
  pruned := ((c.below floor).drop 1).length
  removed := if (c.pruned floor).isDead floor then 1 else 0

/-- A map from keys to version chains. -/
structure VersionMap (κ α : Type) [Ord κ] where
  chains : Std.ExtTreeMap κ (Chain α)

namespace VersionMap

variable {κ α : Type} [Ord κ] [Std.TransOrd κ]

/-- The table without keys. -/
def empty : VersionMap κ α := ⟨∅⟩

instance : Inhabited (VersionMap κ α) := ⟨empty⟩

/-- The value of a key at a generation. -/
def get? (m : VersionMap κ α) (generation : Generation) (key : κ) : Option α :=
  m.chains[key]?.bind (·.get? generation)

/-- The value of a key as the writer sees it. -/
def live? (m : VersionMap κ α) (key : κ) : Option α := m.chains[key]?.bind (·.live?)

/-- The table as a generation sees it. -/
def viewAt (m : VersionMap κ α) (generation : Generation) : Std.ExtTreeMap κ α :=
  m.chains.filterMap fun _ c ↦ c.get? generation

/-- The table as the writer sees it. -/
def liveView (m : VersionMap κ α) : Std.ExtTreeMap κ α := m.chains.filterMap fun _ c ↦ c.live?

/-- Sets a key at the live generation. -/
def set (m : VersionMap κ α) (live : Generation) (key : κ) (value : α) : VersionMap κ α :=
  ⟨m.chains.alter key fun
    | none => some (Chain.single live (some value))
    | some c => some (c.written live (some value))⟩

/-- Clears a key at the live generation. A key without a value is left alone. -/
def clear (m : VersionMap κ α) (live : Generation) (key : κ) : VersionMap κ α :=
  ⟨m.chains.alter key fun c ↦ c.bind (·.cleared? live)⟩

/-- Clears every key at the live generation. -/
def clearAll (m : VersionMap κ α) (live : Generation) : VersionMap κ α :=
  ⟨m.chains.filterMap fun _ c ↦ c.cleared? live⟩

/-- Number of keys, deletions not yet collected included. -/
def size (m : VersionMap κ α) : Nat := m.chains.size

/-- Drops what no generation at or above the floor can see. -/
def prune (m : VersionMap κ α) (floor : Generation) : VersionMap κ α :=
  ⟨m.chains.filterMap fun _ c ↦
    if (c.pruned floor).isDead floor then none else some (c.pruned floor)⟩

/-- What pruning at a floor counts for, over all chains. -/
def tally (m : VersionMap κ α) (floor : Generation) : PruneTally :=
  m.chains.foldl (fun t _ c ↦ t + c.tally floor) PruneTally.zero

/-- Generations kept for a key, newest first. -/
def generations (m : VersionMap κ α) (key : κ) : List Generation :=
  (m.chains[key]?.map Chain.generations).getD []

end VersionMap

end VersionedContent
