import VersionedContent.LiveTables
import VersionedContent.Outcome

/-!
Edits of the content tree. Nodes hold the ids of their children, so attaching a child to a parent or
detaching it rewrites the parent. A kit is written as a whole or not at all; removing a node removes
its subtree; batches are applied parents first.
-/

set_option autoImplicit false

namespace VersionedContent.Edit

open LiveTables

variable {σ : Type} [LiveTables σ]

/-- A node id and those above it, nearest first, as far as a bound on their number. -/
def pathUp (s : σ) : Nat → ContentId → List ContentId
  | 0, _ => []
  | bound + 1, id =>
    id :: match (node? s id).bind ContentNode.parentId with
      | some parent => pathUp s bound parent
      | none => []

/-- Whether a node is another one or one of its ancestors. -/
def isAncestor (s : σ) (ancestor id : ContentId) : Bool :=
  decide (ancestor ∈ pathUp s ContentId.count id)

/-- The content type of a kit that can be applied, or the first reason to skip it. -/
def vet (s : σ) (k : ContentKit) : Except SkipReason ContentType :=
  if k.isEmpty then .error .emptyKit
  else
    match type? s k.contentTypeId with
    | none => .error .missingContentType
    | some type =>
      match k.parentId with
      | none => .ok type
      | some parent =>
        if parent = k.id then .error .selfParent
        else if (node? s parent).isNone then .error .missingParent
        else if isAncestor s k.id parent then .error .cycle
        else .ok type

/-- Enters a node in its parent's child list, or among the roots. -/
def attach (s : σ) (id : ContentId) (parent : Option ContentId) : σ :=
  match parent with
  | none => setRoot s id
  | some parentId =>
    match node? s parentId with
    | some parent => setNode s parentId (parent.withChild id)
    | none => s

/-- Takes a node out of its parent's child list, or from among the roots. -/
def detach (s : σ) (id : ContentId) (parent : Option ContentId) : σ :=
  match parent with
  | none => clearRoot s id
  | some parentId =>
    match node? s parentId with
    | some parent => setNode s parentId (parent.withoutChild id)
    | none => s

/-- Enters a node under its content type, which may differ from that of the node it replaces. -/
def reindex (i : TypeIndex) (previous : Option ContentNode) (n : ContentNode) : TypeIndex :=
  let i := match previous with
    | some p => if p.contentType.id = n.contentType.id then i else i.erase p.contentType.id n.id
    | none => i
  i.insert n.contentType.id n.id

/-- Stores a node in place of the one with its id, whose children it keeps. -/
def store (s : σ) (previous : Option ContentNode) (n : ContentNode) : σ :=
  setNode (setIndex s (reindex (index s) previous n)) n.id n

/-- Writes the node of a vetted kit. -/
def place (s : σ) (k : ContentKit) (type : ContentType) : σ × KitOutcome :=
  match node? s k.id with
  | none => (attach (store s none (.ofKit k type [])) k.id k.parentId, .inserted)
  | some previous =>
    let s := store s (some previous) (.ofKit k type previous.childIds)
    if previous.parentId = k.parentId then (s, .updated)
    else (attach (detach s k.id previous.parentId) k.id k.parentId, .moved)

/-- Inserts or replaces the node that a kit describes. A kit that does not fit is skipped, never
applied in part. -/
def set (s : σ) (k : ContentKit) : σ × KitOutcome :=
  match vet s k with
  | .error reason => (s, .skipped reason)
  | .ok type => place s k type

/-- A node and its descendants, down to a bound on their depth. -/
def branch (s : σ) : Nat → ContentId → List ContentNode
  | 0, _ => []
  | bound + 1, id =>
    match node? s id with
    | none => []
    | some n => n :: n.childIds.flatMap (branch s bound)

/-- Drops a node from the table and from the index. -/
def forget (s : σ) (n : ContentNode) : σ :=
  clearNode (setIndex s ((index s).erase n.contentType.id n.id)) n.id

/-- Removes a node with its subtree; gives the number of nodes removed. -/
def removeSubtree (s : σ) (id : ContentId) : σ × Nat :=
  match node? s id with
  | none => (s, 0)
  | some n =>
    let gone := branch s ContentId.count id
    (gone.foldl forget (detach s id n.parentId), gone.length)

/-- Removes a node with its subtree, and tells whether there was one. -/
def clear (s : σ) (id : ContentId) : σ × Bool :=
  let (s, removed) := removeSubtree s id
  (s, decide (0 < removed))

/-- Whether one kit is applied before another or stands at the same level. -/
def levelLE (a b : ContentKit) : Bool := decide (a.level ≤ b.level)

/-- Applies kits in the order in which they stand. -/
def setEach (s : σ) (ks : List ContentKit) : σ × LoadReport :=
  ks.foldl (fun (s, report) k ↦ let (s, outcome) := set s k; (s, report.record outcome))
    (s, LoadReport.zero)

/-- Applies kits by level, those of one level in the order in which they stand. -/
def setOrdered (s : σ) (ks : List ContentKit) : σ × LoadReport := setEach s (ks.mergeSort levelLE)

/-- Replaces the whole tree with kits. -/
def setAll (s : σ) (ks : List ContentKit) : σ × LoadReport :=
  setOrdered (setIndex (clearTree s) TypeIndex.empty) ks

/-- Replaces a branch with kits. -/
def setBranch (s : σ) (root : ContentId) (ks : List ContentKit) : σ × LoadReport :=
  setOrdered (clear s root).1 ks

/-- Ids of a node's children, in the order in which they came. -/
def childIds (s : σ) (id : ContentId) : List ContentId :=
  ((node? s id).map ContentNode.childIds).getD []

end VersionedContent.Edit
