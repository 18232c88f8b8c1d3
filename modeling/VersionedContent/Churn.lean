import VersionedContent.Consistency
import VersionedContent.Dump
import VersionedContent.Random.Generator

/-!
A store kept busy: rounds of writes that take branches of a tree away and put them back, move leaves
out and back, and swap payloads, while readers take snapshots and check that each one is a
consistent tree. Which nodes the rounds work on is told by a list of draws, which may come from a
seed.
-/

set_option autoImplicit false

namespace VersionedContent.Churn

/-- Parameters of a run. -/
structure Config where
  readers : Nat
  /-- The date of new payloads. -/
  now : Timestamp

/-- Outcome of a run. -/
structure Report where
  writes : Nat
  snapshotsChecked : Nat
  inconsistentSnapshots : Nat
  collectionPasses : Nat
  finalCollection : CollectStats
  nodeKeys : Nat
deriving DecidableEq

/-- A walk from a node down a dump: ids still to be looked at, the next one first, and the kits
found. -/
structure BranchWalk where
  pending : List ContentId
  found : List ContentKit

/-- Looks at the next id: its kits are found, and the ids of kits below it are looked at next. -/
def BranchWalk.step (kits : List ContentKit) (w : BranchWalk) : BranchWalk :=
  match w.pending with
  | [] => w
  | id :: rest =>
    ⟨((kits.filter (·.parentId == some id)).map ContentKit.id).reverse ++ rest,
      w.found ++ kits.filter (·.id == id)⟩

/-- Walks on until nothing is left to be looked at. Ids already looked at are not told from new
ones, so a walk into a circle of parents has no end. -/
def BranchWalk.run (kits : List ContentKit) : BranchWalk → List ContentKit :=
  repeatM (m := Id) fun w ↦ if w.pending.isEmpty then .inr w.found else .inl (w.step kits)

/-- The kits of a node and of those below it in a dump. -/
def branchOf (kits : List ContentKit) (root : ContentId) : List ContentKit :=
  BranchWalk.run kits ⟨[root], []⟩

/-- The kits that a run works on. -/
structure Stock where
  kits : List ContentKit
  /-- Kits that are some kit's parent. -/
  folders : List ContentKit
  /-- Kits that are no kit's parent. -/
  leaves : List ContentKit

/-- Sorts kits by whether they are some kit's parent. -/
def Stock.ofKits (kits : List ContentKit) : Stock :=
  let (folders, leaves) := kits.partition fun k ↦ kits.any (·.parentId == some k.id)
  ⟨kits, folders, leaves⟩

/-- The numbers that choose what one round works on. -/
structure Draw where
  kit : Nat
  leaf : Nat
  folder : Nat

/-- Whether a round is one that moves a leaf. -/
def Stock.moves (t : Stock) (round : Nat) : Bool :=
  round % 5 == 1 && !t.folders.isEmpty && !t.leaves.isEmpty

/-- The draw of a round. A leaf and a folder are drawn only in rounds that move one. -/
def Stock.draw (t : Stock) (round : Nat) (g : Random.Generator) : Draw × Random.Generator :=
  let (kit, g) := g.below t.kits.length
  if t.moves round then
    let (leaf, g) := g.below t.leaves.length
    let (folder, g) := g.below t.folders.length
    (⟨kit, leaf, folder⟩, g)
  else (⟨kit, 0, 0⟩, g)

/-- The draws that a seed gives for so many rounds on some kits. -/
def draws (seed : UInt64) (kits : List ContentKit) (rounds : Nat) : List Draw :=
  let t := Stock.ofKits kits
  let (draws, _) := (List.range rounds).foldl (fun ((ds, g) : Array Draw × Random.Generator) round ↦
    let (d, g) := t.draw round g
    (ds.push d, g)) (#[], .ofSeed seed)
  draws.toList

/-- The entry of a list that a drawn number chooses. -/
def choose? {α : Type} (xs : List α) (drawn : Nat) : Option α := xs[drawn % xs.length]?

/-- Takes the branch of a kit away, and puts it back in a later section. -/
def replant (kits : List ContentKit) (k : ContentKit) (s : ContentStore) : ContentStore :=
  let s := (s.write (·.clear k.id)).1
  (s.write (·.setBranch k.id (branchOf kits k.id))).1

/-- Moves a leaf below a folder and back. -/
def moveAround (leaf folder : ContentKit) (s : ContentStore) : ContentStore :=
  let s := (s.write (·.set (leaf.under folder))).1
  (s.write (·.set leaf)).1

/-- Swaps the published payload of a kit. -/
def republish (c : Config) (round : Nat) (k : ContentKit) (s : ContentStore) : ContentStore :=
  let data := ContentData.new s!"{k.id} r{round}" (UInt32.ofNat (round + 2)) true c.now
  (s.write (·.set (k.withPublished data))).1

/-- The writes of one round; gives their number. -/
def writeRound (c : Config) (t : Stock) (draw : Draw) (round : Nat) (s : ContentStore) :
    ContentStore × Nat :=
  match choose? t.kits draw.kit with
  | none => (s, 0)
  | some k =>
    if round % 5 = 0 then (replant t.kits k s, 2)
    else if t.moves round then
      match choose? t.leaves draw.leaf, choose? t.folders draw.folder with
      | some leaf, some folder =>
        if leaf.parentId = some folder.id then (s, 0) else (moveAround leaf folder s, 2)
      | _, _ => (s, 0)
    else (republish c round k s, 1)

/-- Snapshots checked, and those found inconsistent. -/
structure Checks where
  checked : Nat
  inconsistent : Nat

/-- Each of some readers takes a snapshot, checks it and gives it up. -/
def readRound : Nat → ContentStore → Checks → ContentStore × Checks
  | 0, s, checks => (s, checks)
  | readers + 1, s, checks =>
    let (s, pin) := s.snapshot
    let sound := (s.viewAt pin.generation).linkProblem?.isNone
    readRound readers (s.release pin)
      ⟨checks.checked + 1, checks.inconsistent + if sound then 0 else 1⟩

/-- One round: the writes, in every sixteenth round a snapshot given up at once, and the readers. -/
def playRound (c : Config) (t : Stock) (draw : Draw) (round : Nat) :
    ContentStore × Nat × Checks → ContentStore × Nat × Checks
  | (s, writes, checks) =>
    let (s, more) := writeRound c t draw round s
    let s := if round % 16 = 15 then s.touch.1 else s
    let (s, checks) := readRound c.readers s checks
    (s, writes + more, checks)

/-- Loads a dump into a store, plays a round for each draw, and ends with a collection pass. -/
def run (c : Config) (draws : List Draw) (d : KitDump) (s : ContentStore) :
    Except Misuse (ContentStore × Report) :=
  if d.kits.isEmpty then .error .nothingToChurn
  else
    let s := (d.applyTo s).1
    let passesBefore := s.engine.passes
    let t := Stock.ofKits d.kits
    let (s, writes, checks) :=
      draws.zipIdx.foldl (fun state (draw, round) ↦ playRound c t draw round state) (s, 0, ⟨0, 0⟩)
    let (s, finalCollection) := s.collect
    .ok (s, {
      writes
      snapshotsChecked := checks.checked
      inconsistentSnapshots := checks.inconsistent
      collectionPasses := s.engine.passes - passesBefore
      finalCollection
      nodeKeys := s.count })

end VersionedContent.Churn
