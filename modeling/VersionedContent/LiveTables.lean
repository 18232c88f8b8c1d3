import VersionedContent.View

/-!
What an edit of a content tree needs of the state it works on: reading, setting and clearing single
entries of the four tables, and an index from content types to their nodes. The plain tables of a
view together with such an index are one such state.
-/

set_option autoImplicit false

namespace VersionedContent

/-- For every content type, the nodes bound to it. -/
structure TypeIndex where
  entries : Std.ExtTreeMap ContentTypeId (Std.ExtTreeSet ContentId)

namespace TypeIndex

/-- The index of an empty tree. -/
def empty : TypeIndex := ⟨∅⟩

/-- The nodes of a type, ascending. -/
def nodesOf (i : TypeIndex) (type : ContentTypeId) : List ContentId :=
  (i.entries[type]?.map (·.toList)).getD []

/-- The index with a node entered under a type. -/
def insert (i : TypeIndex) (type : ContentTypeId) (id : ContentId) : TypeIndex :=
  ⟨i.entries.alter type fun ids ↦ some ((ids.getD ∅).insert id)⟩

/-- The index without a node under a type. -/
def erase (i : TypeIndex) (type : ContentTypeId) (id : ContentId) : TypeIndex :=
  ⟨i.entries.alter type fun ids ↦
    (ids.map (·.erase id)).filter fun ids ↦ !ids.isEmpty⟩

/-- The index without a type. -/
def eraseType (i : TypeIndex) (type : ContentTypeId) : TypeIndex := ⟨i.entries.erase type⟩

end TypeIndex

/-- A state that the edits of a content tree can work on. -/
class LiveTables (σ : Type) where
  node? : σ → ContentId → Option ContentNode
  setNode : σ → ContentId → ContentNode → σ
  clearNode : σ → ContentId → σ
  /-- Makes an id a root. -/
  setRoot : σ → ContentId → σ
  clearRoot : σ → ContentId → σ
  /-- Clears every node and every root. -/
  clearTree : σ → σ
  type? : σ → ContentTypeId → Option ContentType
  setType : σ → ContentTypeId → ContentType → σ
  clearType : σ → ContentTypeId → σ
  /-- Every content type, by id. -/
  types : σ → List ContentType
  typeNamed? : σ → String → Option ContentType
  /-- Stores a content type under a short name. -/
  setHandle : σ → String → ContentType → σ
  clearHandle : σ → String → σ
  index : σ → TypeIndex
  setIndex : σ → TypeIndex → σ

/-- Plain tables with their index: the current state of a tree without any history. -/
structure LiveContent where
  view : ContentView
  index : TypeIndex

namespace LiveContent

/-- The empty tree. -/
def empty : LiveContent := ⟨ContentView.empty, TypeIndex.empty⟩

/-- Sets and clears nodes and roots only. -/
def modify (s : LiveContent) (f : ContentView → ContentView) : LiveContent :=
  { s with view := f s.view }

instance : LiveTables LiveContent where
  node? s := s.view.node?
  setNode s id n := s.modify fun v ↦ { v with nodes := v.nodes.insert id n }
  clearNode s id := s.modify fun v ↦ { v with nodes := v.nodes.erase id }
  setRoot s id := s.modify fun v ↦ { v with roots := v.roots.insert id () }
  clearRoot s id := s.modify fun v ↦ { v with roots := v.roots.erase id }
  clearTree s := s.modify fun v ↦ { v with nodes := ∅, roots := ∅ }
  type? s := s.view.type?
  setType s id t := s.modify fun v ↦ { v with types := v.types.insert id t }
  clearType s id := s.modify fun v ↦ { v with types := v.types.erase id }
  types s := s.view.allTypes
  typeNamed? s := s.view.typeNamed?
  setHandle s handle t :=
    s.modify fun v ↦ { v with typesByHandle := v.typesByHandle.insert handle t }
  clearHandle s handle :=
    s.modify fun v ↦ { v with typesByHandle := v.typesByHandle.erase handle }
  index := LiveContent.index
  setIndex s index := { s with index }

end LiveContent

end VersionedContent
