import VersionedContent.Dump

/-!
Generated trees: a number of top-level nodes, a fixed number of children under every inner node, and
a number of levels. Nodes of the last level are pages, all others folders. Ids count up from one,
level by level.
-/

set_option autoImplicit false

namespace VersionedContent

/-- Where new kits get their keys and their dates from. -/
structure Mint where
  key : ContentId → Uuid
  now : Timestamp

/-- Shape of a generated tree. -/
structure SyntheticTree where
  /-- Top-level nodes. -/
  roots : UInt32
  /-- Children per inner node. -/
  fanout : UInt32
  /-- Levels, the top one included. -/
  depth : UInt32
deriving DecidableEq

namespace SyntheticTree

/-- The greatest number of nodes that is counted. -/
def maxCount : Nat := UInt64.size - 1

/-- The greatest number of nodes that is generated. -/
def maxNodes : Nat := 1000000

/-- Adds up levels, each `fanout` times as large as the one before, as far as counting goes. -/
def countLevels (fanout : Nat) : Nat → Nat → Nat → Nat
  | 0, _, total => total
  | depth + 1, level, total =>
    if level = 0 ∨ maxCount ≤ total then total
    else countLevels fanout depth (min maxCount (level * fanout)) (min maxCount (total + level))

/-- Number of nodes, as far as counting goes. Levels of equal size are multiplied. -/
def nodeCount (t : SyntheticTree) : Nat :=
  if t.fanout = 1 then min maxCount (t.roots.toNat * t.depth.toNat)
  else countLevels t.fanout.toNat t.depth.toNat t.roots.toNat 0

/-- Content type of generated inner nodes. -/
def folderType : ContentTypeId := ⟨1⟩

/-- Content type of generated leaves. -/
def pageType : ContentTypeId := ⟨2⟩

/-- The content types of generated trees. -/
def contentTypes : List ContentType := [
  ContentType.new folderType "folder" .content,
  ((ContentType.new pageType "page" .content).withProperty "title" ⟨1⟩ "textbox").withProperty
    "body" ⟨2⟩ "richtext"]

/-- The payload of a generated node. -/
def data (mint : Mint) (id : ContentId) (leaf : Bool) : ContentData :=
  if leaf then
    let name := s!"Page {id}"
    ((ContentData.new name 1 true mint.now).withProperty "title" (.string name)).withProperty
      "body" (.string "")
  else ContentData.new s!"Folder {id}" 1 true mint.now

/-- The kit of a generated node at a position among its siblings. -/
def kit (mint : Mint) (parent : Option ContentKit) (leaf : Bool) (number position : Nat) :
    ContentKit :=
  let id : ContentId := ⟨UInt32.ofNat number⟩
  let k := ((ContentKit.new id (if leaf then pageType else folderType) (mint.key id)
    mint.now).withSortOrder (Int32.ofNat (min position (Nat.pow 2 31 - 1)))).withPublished
      (data mint id leaf)
  match parent with
  | some parent => k.under parent
  | none => k

/-- The level below some nodes, numbered from `next` on. -/
def levelBelow (mint : Mint) (fanout : Nat) (leaf : Bool) (next : Nat) (level : List ContentKit) :
    List ContentKit :=
  level.zipIdx.flatMap fun (parent, i) ↦
    (List.range fanout).map fun position ↦
      kit mint (some parent) leaf (next + i * fanout + position) position

/-- A level and so many levels below it, numbered from `next` on. -/
def levels (mint : Mint) (fanout : Nat) : Nat → Nat → List ContentKit → List ContentKit
  | 0, _, level => level
  | _ + 1, _, [] => []
  | depth + 1, next, level =>
    let below := levelBelow mint fanout (depth == 0) next level
    level ++ levels mint fanout depth (next + below.length) below

/-- The kits of a tree, every one after its parent. -/
def kits (t : SyntheticTree) (mint : Mint) : List ContentKit :=
  let roots := (List.range t.roots.toNat).map fun position ↦
    kit mint none (t.depth == 1) (1 + position) position
  levels mint t.fanout.toNat (t.depth.toNat - 1) (1 + roots.length) roots

/-- The dump of a tree that has nodes, but not too many. -/
def dump (t : SyntheticTree) (mint : Mint) : Except Misuse KitDump :=
  if t.roots = 0 ∨ t.depth = 0 then .error .shapelessTree
  else if maxNodes < t.nodeCount then .error .oversizedTree
  else .ok ⟨contentTypes, t.kits mint⟩

end SyntheticTree

end VersionedContent
