import VersionedContent.Ids

/-!
The clock of a store. One writer at a time works at the live generation, inside a write section;
readers pin an earlier, complete generation. Pins are handed out in order and queue up until every
handle on them is gone. The floor is the newest generation that has left the queue this way:
versions that only older generations could see may be dropped.
-/

set_option autoImplicit false

namespace VersionedContent

/-- A reference that keeps one generation observable. The serial number tells pins of equal
generation apart. -/
structure Pin where
  generation : Generation
  serial : Nat
deriving DecidableEq, Inhabited

/-- Generation counters, the queue of pins handed out, and the handles still held on them. -/
structure Clock where
  /-- Generation open for writes, or the last one that was. -/
  live : Generation
  /-- Newest generation whose pins have all left the queue. -/
  floor : Generation
  /-- Whether a section opened the live generation after the last pin of a complete state. -/
  dirty : Bool
  /-- Whether a write section is open. -/
  writing : Bool
  /-- The pin issued last. -/
  current : Option Pin
  /-- Pins not yet released by the collector, oldest first. -/
  queue : List Pin
  /-- One entry for every handle on a pin. -/
  held : List Pin
  /-- Number of pins made so far. -/
  issued : Nat
deriving DecidableEq, Inhabited

namespace Clock

/-- The clock of an empty store. -/
def new : Clock where
  live := 0
  floor := 0
  dirty := false
  writing := false
  current := none
  queue := []
  held := []
  issued := 0

/-- Opens a write section, at a new generation when the previous one has been pinned. -/
def openSection (c : Clock) : Clock :=
  if c.dirty then { c with writing := true }
  else { c with live := c.live + 1, dirty := true, writing := true }

/-- Ends the open write section. -/
def closeSection (c : Clock) : Clock := { c with writing := false }

/-- Newest generation without unfinished writes: an open section may have half written the live
one. -/
def complete (c : Clock) : Generation :=
  if c.writing && c.dirty then c.live - 1 else c.live

/-- The pin issued last, when a handle on it is left and it still shows the complete state. -/
def reusable? (c : Clock) : Option Pin :=
  c.current.filter fun p ↦ decide (p ∈ c.held) && p.generation == c.complete

/-- The queue with a new pin at the back. A released pin of the same generation at the back gives
up its place. -/
def enqueue (c : Clock) (p : Pin) : List Pin :=
  match c.queue.getLast? with
  | some back =>
    if back.generation = p.generation ∧ back ∉ c.held then c.queue.dropLast ++ [p]
    else c.queue ++ [p]
  | none => [p]

/-- The pin that the next issue makes when none is reusable. -/
def fresh (c : Clock) : Pin := ⟨c.complete, c.issued⟩

/-- Hands out a handle on a pin of the newest complete generation: the one issued last if
nothing was written since and it is still held, else a fresh one. -/
def issue (c : Clock) : Clock × Pin :=
  match c.reusable? with
  | some p => ({ c with held := p :: c.held }, p)
  | none =>
    ({ c with
        queue := c.enqueue c.fresh
        current := some c.fresh
        dirty := c.dirty && c.writing
        held := c.fresh :: c.held
        issued := c.issued + 1 }, c.fresh)

/-- A further handle on a held pin. -/
def clone (c : Clock) (p : Pin) : Clock := { c with held := p :: c.held }

/-- Gives up one handle on a pin. -/
def release (c : Clock) (p : Pin) : Clock := { c with held := c.held.erase p }

/-- What moving the floor did. -/
structure FloorAdvance where
  previous : Generation
  floor : Generation
  /-- Pins that left the queue. -/
  released : Nat
deriving DecidableEq

/-- The pins at the front of the queue on which no handle is left. -/
def releasable (c : Clock) : List Pin := c.queue.takeWhile (· ∉ c.held)

/-- Takes the released pins off the front of the queue and moves the floor to the last of them. -/
def advanceFloor (c : Clock) : Clock × FloorAdvance :=
  let floor := c.releasable.foldl (fun f p ↦ max f p.generation) c.floor
  ({ c with floor, queue := c.queue.dropWhile (· ∉ c.held) },
    { previous := c.floor, floor, released := c.releasable.length })

/-- Whether the live generation is more than `lag` ahead of the floor. -/
def collectionDue (c : Clock) (lag : Nat) : Bool := decide (c.live - c.floor > lag)

/-- The counters of a clock at one moment. -/
structure Status where
  live : Generation
  floor : Generation
  dirty : Bool
  queuedSnapshots : Nat
deriving DecidableEq

/-- Current counters. -/
def status (c : Clock) : Status := ⟨c.live, c.floor, c.dirty, c.queue.length⟩

/-- Diagnostic text of the counters. -/
def Status.describe (s : Status) : String :=
  s!"GenerationStatus \x7b live: {s.live}, floor: {s.floor}, dirty: {s.dirty}, " ++
    s!"queued_snapshots: {s.queuedSnapshots} \x7d"

end Clock

end VersionedContent
