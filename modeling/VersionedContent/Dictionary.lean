import VersionedContent.Engine

/-!
A dictionary with snapshots: one versioned table with its own clock and collector. Writes happen in
sections; a snapshot shows the dictionary as the newest complete section left it, until its last
handle is released, whatever is written or collected meanwhile.
-/

set_option autoImplicit false

namespace VersionedContent

/-- A snapshot isolated dictionary with a single writer. -/
structure Dictionary (κ α : Type) [Ord κ] where
  engine : Engine
  items : VersionMap κ α

namespace Dictionary

variable {κ α : Type} [Ord κ] [Std.TransOrd κ]

/-- An empty dictionary, if the options are usable. -/
def create (options : StoreOptions) : Except Misuse (Dictionary κ α) := do
  let options ← options.validate
  return ⟨Engine.new options, VersionMap.empty⟩

/-- The clock of the dictionary. -/
def clock (d : Dictionary κ α) : Clock := d.engine.clock

/-- The dictionary after a step of its clock. -/
def tick (d : Dictionary κ α) (step : Clock → Clock) : Dictionary κ α :=
  { d with engine := d.engine.withClock (step d.clock) }

/-- Opens a write section. -/
def openSection (d : Dictionary κ α) : Dictionary κ α := d.tick Clock.openSection

/-- Ends the open write section. -/
def closeSection (d : Dictionary κ α) : Dictionary κ α := d.tick Clock.closeSection

/-- Sets a key, within a section. -/
def set (d : Dictionary κ α) (key : κ) (value : α) : Dictionary κ α :=
  { d with items := d.items.set d.clock.live key value }

/-- Clears a key, within a section. -/
def clear (d : Dictionary κ α) (key : κ) : Dictionary κ α :=
  { d with items := d.items.clear d.clock.live key }

/-- Clears every key, within a section. -/
def clearAll (d : Dictionary κ α) : Dictionary κ α :=
  { d with items := d.items.clearAll d.clock.live }

/-- Runs one write in a section of its own and tells the generation of the section. -/
def write (d : Dictionary κ α) (action : Dictionary κ α → Dictionary κ α) :
    Dictionary κ α × Generation :=
  let d := d.openSection
  ((action d).closeSection, d.clock.live)

/-- The current value of a key, writes of the open section included. -/
def live? (d : Dictionary κ α) (key : κ) : Option α := d.items.live? key

/-- The current keys and values, by key, writes of the open section included. -/
def liveEntries (d : Dictionary κ α) : List (κ × α) := d.items.liveView.toList

/-- The value of a key at a generation. Below the floor it may be gone. -/
def get? (d : Dictionary κ α) (generation : Generation) (key : κ) : Option α :=
  d.items.get? generation key

/-- The keys and values at a generation, by key. -/
def entries (d : Dictionary κ α) (generation : Generation) : List (κ × α) :=
  (d.items.viewAt generation).toList

/-- The keys at a generation, ascending. -/
def keys (d : Dictionary κ α) (generation : Generation) : List κ :=
  (d.entries generation).map Prod.fst

/-- The values at a generation, by key. -/
def values (d : Dictionary κ α) (generation : Generation) : List α :=
  (d.entries generation).map Prod.snd

/-- Whether no key has a value at a generation. -/
def isEmptyAt (d : Dictionary κ α) (generation : Generation) : Bool :=
  (d.items.viewAt generation).isEmpty

/-- Runs a collection pass. -/
def collect (d : Dictionary κ α) : Dictionary κ α × CollectStats :=
  let (engine, stats) := d.engine.collect d.items.tally
  (⟨engine, d.items.prune stats.floor⟩, stats)

/-- Takes a snapshot of the newest complete generation. When the floor lags too far behind a fresh
one, a collection pass runs while it is held. -/
def snapshot (d : Dictionary κ α) : Dictionary κ α × Pin :=
  let (engine, pin, due) := d.engine.issue
  let d : Dictionary κ α := { d with engine }
  (if due then d.collect.1 else d, pin)

/-- A further handle on a snapshot. -/
def clone (d : Dictionary κ α) (pin : Pin) : Dictionary κ α := d.tick (·.clone pin)

/-- Gives up one handle on a snapshot. -/
def release (d : Dictionary κ α) (pin : Pin) : Dictionary κ α := d.tick (·.release pin)

/-- Number of keys, deletions not yet collected included. -/
def count (d : Dictionary κ α) : Nat := d.items.size

/-- Diagnostic text of the dictionary. -/
def describe (d : Dictionary κ α) : String :=
  s!"SnapDictionary \x7b status: {d.clock.status.describe}, keys: {d.count} \x7d"

/-- Diagnostic text of a snapshot. -/
def describeSnapshot (pin : Pin) : String := s!"DictSnapshot \x7b generation: {pin.generation} \x7d"

end Dictionary

end VersionedContent
