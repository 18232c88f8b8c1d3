import VersionedContent.Ids

/-!
The versions of one key, newest first. A version without a value records that the key was cleared.
Readers see the newest version at or below their generation; pruning at a floor keeps exactly the
versions that a generation at or above the floor can still see.
-/

set_option autoImplicit false

namespace VersionedContent

/-- One version of a key. No value marks a deletion. -/
structure Version (α : Type) where
  generation : Generation
  value : Option α
deriving DecidableEq, Inhabited

/-- The versions of one key, the newest at the head. -/
structure Chain (α : Type) where
  head : Version α
  older : List (Version α)
deriving DecidableEq, Inhabited

namespace Chain

variable {α : Type}

/-- Every version, newest first. -/
def versions (c : Chain α) : List (Version α) := c.head :: c.older

/-- A chain of one version. -/
def single (generation : Generation) (value : Option α) : Chain α := ⟨⟨generation, value⟩, []⟩

/-- The newest version at or below a generation. -/
def visible? (c : Chain α) (generation : Generation) : Option (Version α) :=
  c.versions.find? fun v ↦ decide (v.generation ≤ generation)

/-- The value seen at a generation. -/
def get? (c : Chain α) (generation : Generation) : Option α :=
  (c.visible? generation).bind Version.value

/-- The value of the newest version, as the writer sees it. -/
def live? (c : Chain α) : Option α := c.head.value

/-- Records a value at the live generation: a head of that generation is replaced, since no reader
can be pinned to it, and an older head gets a successor. A head newer than the live generation is
refused. -/
def write? (c : Chain α) (live : Generation) (value : Option α) : Option (Chain α) :=
  if c.head.generation = live then some ⟨⟨live, value⟩, c.older⟩
  else if c.head.generation < live then some ⟨⟨live, value⟩, c.versions⟩
  else none

/-- The chain after recording a value; a refused write changes nothing. -/
def written (c : Chain α) (live : Generation) (value : Option α) : Chain α :=
  (c.write? live value).getD c

/-- Whether nothing is left but one deletion. -/
def isStandaloneAbsent (c : Chain α) : Bool := c.head.value.isNone && c.older.isEmpty

/-- The chain after clearing its key, or nothing when no generation could tell it from a key that
was never written. -/
def cleared? (c : Chain α) (live : Generation) : Option (Chain α) :=
  if c.live?.isNone then some c
  else if (c.written live none).isStandaloneAbsent then none
  else some (c.written live none)

/-- The versions above a floor, newest first. -/
def above (c : Chain α) (floor : Generation) : List (Version α) :=
  c.versions.takeWhile fun v ↦ decide (floor < v.generation)

/-- The versions from the newest one at or below a floor on. -/
def below (c : Chain α) (floor : Generation) : List (Version α) :=
  c.versions.dropWhile fun v ↦ decide (floor < v.generation)

/-- Drops every version older than the newest one at or below the floor. -/
def pruned (c : Chain α) (floor : Generation) : Chain α :=
  match c.above floor ++ (c.below floor).take 1 with
  | head :: older => ⟨head, older⟩
  | [] => c

/-- Whether a pruned chain is a single deletion at or below the floor, which no reader needs. -/
def isDead (c : Chain α) (floor : Generation) : Bool :=
  decide (c.head.generation ≤ floor) && c.isStandaloneAbsent

/-- Generations of the versions kept, newest first. -/
def generations (c : Chain α) : List Generation := c.versions.map Version.generation

end Chain

end VersionedContent
