import VersionedContent.Node

/-!
One state of a content tree as plain tables: nodes and root membership by node id, content types by
id and by short name. Readers ask a view for siblings in order, ancestors, and whole listings.
-/

set_option autoImplicit false

namespace VersionedContent

/-- The tables of a content tree at one moment. -/
structure ContentView where
  nodes : Std.ExtTreeMap ContentId ContentNode
  roots : Std.ExtTreeMap ContentId Unit
  types : Std.ExtTreeMap ContentTypeId ContentType
  typesByHandle : Std.ExtTreeMap String ContentType

namespace ContentView

/-- The tables of an empty tree. -/
def empty : ContentView := ⟨∅, ∅, ∅, ∅⟩

/-- Whether one node stands before another among siblings, or is that node: by sort order, then by
id. -/
def siblingLE (a b : ContentNode) : Bool :=
  decide (a.sortOrder < b.sortOrder) ||
    a.sortOrder == b.sortOrder && decide (a.id.val ≤ b.id.val)

/-- Whether one node stands before another in a listing of the whole tree, or is that node: by
level, then as siblings. -/
def listingLE (a b : ContentNode) : Bool :=
  decide (a.level < b.level) || a.level == b.level && siblingLE a b

/-- A node. -/
def node? (v : ContentView) (id : ContentId) : Option ContentNode := v.nodes[id]?

/-- A content type by id. -/
def type? (v : ContentView) (id : ContentTypeId) : Option ContentType := v.types[id]?

/-- A content type by its short name. -/
def typeNamed? (v : ContentView) (handle : String) : Option ContentType := v.typesByHandle[handle]?

/-- Top-level nodes, by sort order and id. -/
def atRoot (v : ContentView) : List ContentNode :=
  (v.roots.keys.filterMap v.node?).mergeSort siblingLE

/-- Children of a node, by sort order and id. -/
def children (v : ContentView) (id : ContentId) : List ContentNode :=
  (((v.node? id).map ContentNode.childIds).getD [] |>.filterMap v.node?).mergeSort siblingLE

/-- Parent of a node. -/
def parent? (v : ContentView) (id : ContentId) : Option ContentNode :=
  ((v.node? id).bind ContentNode.parentId).bind v.node?

/-- A node and its ancestors, nearest first, as far as a bound on their number. -/
def lineage (v : ContentView) : Nat → Option ContentNode → List ContentNode
  | 0, _ | _, none => []
  | bound + 1, some n => n :: v.lineage bound (n.parentId.bind v.node?)

/-- Ancestors of a node, nearest first. -/
def ancestors (v : ContentView) (id : ContentId) : List ContentNode :=
  v.lineage ContentId.count (v.parent? id)

/-- Every node, by level, sort order and id. -/
def all (v : ContentView) : List ContentNode := v.nodes.values.mergeSort listingLE

/-- Whether there are no nodes. -/
def isEmpty (v : ContentView) : Bool := v.nodes.isEmpty

/-- Every content type, by id. -/
def allTypes (v : ContentView) : List ContentType := v.types.values

end ContentView

end VersionedContent
