import VersionedContent.Kit

/-!
Nodes of the content tree. A node is a kit's data, bound to the definition of its content type, with
the ids of its children in the order in which they came.
-/

set_option autoImplicit false

namespace VersionedContent

/-- A node of the content tree. -/
structure ContentNode where
  id : ContentId
  key : Uuid
  contentType : ContentType
  level : UInt32
  path : String
  sortOrder : Int32
  parentId : Option ContentId
  createDate : Timestamp
  creatorId : UInt32
  childIds : List ContentId
  draft : Option ContentData
  published : Option ContentData
deriving DecidableEq

namespace ContentNode

/-- The node that a kit describes. -/
def ofKit (k : ContentKit) (contentType : ContentType) (childIds : List ContentId) :
    ContentNode where
  id := k.id
  key := k.key
  contentType
  level := k.level
  path := k.path
  sortOrder := k.sortOrder
  parentId := k.parentId
  createDate := k.createDate
  creatorId := k.creatorId
  childIds
  draft := k.draft
  published := k.published

/-- The kit that describes a node. -/
def toKit (n : ContentNode) : ContentKit where
  id := n.id
  key := n.key
  parentId := n.parentId
  contentTypeId := n.contentType.id
  level := n.level
  path := n.path
  sortOrder := n.sortOrder
  createDate := n.createDate
  creatorId := n.creatorId
  draft := n.draft
  published := n.published

/-- The node bound to another definition of its content type. -/
def rebind (n : ContentNode) (contentType : ContentType) : ContentNode := { n with contentType }

/-- The node with a child at the end of its list, unless the list has it. -/
def withChild (n : ContentNode) (child : ContentId) : ContentNode :=
  if child ∈ n.childIds then n else { n with childIds := n.childIds ++ [child] }

/-- The node without a child. -/
def withoutChild (n : ContentNode) (child : ContentId) : ContentNode :=
  { n with childIds := n.childIds.filter (· ≠ child) }

/-- The payload a reader sees: in preview the draft first, else the published one. -/
def data? (n : ContentNode) (preview : Bool) : Option ContentData :=
  if preview then n.draft.or n.published else n.published

/-- The name of the payload a reader sees. -/
def name? (n : ContentNode) (preview : Bool) : Option String :=
  (n.data? preview).map ContentData.name

end ContentNode

end VersionedContent
