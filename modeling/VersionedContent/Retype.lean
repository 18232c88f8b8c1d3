import VersionedContent.Edit

/-!
Changes of the content types of a tree. Removing a type removes its nodes with their subtrees;
storing a new definition binds the nodes of the type to it.
-/

set_option autoImplicit false

namespace VersionedContent.Retype

open LiveTables

variable {σ : Type} [LiveTables σ]

/-- Stores a definition. A previous short name of the type is given up. -/
def putType (s : σ) (type : ContentType) : σ :=
  let s := match type? s type.id with
    | some previous =>
      if previous.handle = type.handle then s else clearHandle s previous.handle
    | none => s
  setHandle (setType s type.id type) type.handle type

/-- Drops a definition, and tells whether there was one. -/
def dropType (s : σ) (id : ContentTypeId) : σ × Bool :=
  match type? s id with
  | none => (s, false)
  | some previous => (clearType (clearHandle s previous.handle) id, true)

/-- Removes each of some nodes with its subtree; gives the number of nodes removed. -/
def removeEach (s : σ) (ids : List ContentId) : σ × Nat :=
  ids.foldl (fun (s, removed) id ↦
    let (s, more) := Edit.removeSubtree s id
    (s, removed + more)) (s, 0)

/-- Removes a content type with its nodes; gives the number of nodes removed, and whether the type
was defined. -/
def removeType (s : σ) (id : ContentTypeId) : σ × Nat × Bool :=
  let (s, removed) :=
    removeEach (setIndex s ((index s).eraseType id)) ((index s).nodesOf id)
  let (s, defined) := dropType s id
  (s, removed, defined)

/-- Removes content types one after another; gives the numbers of nodes and of types removed. -/
def removeTypes (s : σ) (ids : List ContentTypeId) : σ × Nat × Nat :=
  ids.foldl (fun (s, nodes, types) id ↦
    let (s, removed, defined) := removeType s id
    (s, nodes + removed, types + if defined then 1 else 0)) (s, 0, 0)

/-- Binds a node to a definition; tells whether there was a node. -/
def rebindNode (s : σ) (type : ContentType) (id : ContentId) : σ × Bool :=
  match node? s id with
  | some n => (setNode s id (n.rebind type), true)
  | none => (s, false)

/-- Binds every node of a type to a definition, but for some nodes; gives the number of nodes
bound. -/
def rebindNodes (s : σ) (type : ContentType) (except : List ContentId) : σ × Nat :=
  (((index s).nodesOf type.id).filter (· ∉ except)).foldl (fun (s, rebound) id ↦
    let (s, found) := rebindNode s type id
    (s, rebound + if found then 1 else 0)) (s, 0)

/-- Binds the nodes of each of some types, but for some nodes. -/
def rebindAll (s : σ) (types : List ContentType) (except : List ContentId) : σ × Nat :=
  types.foldl (fun (s, rebound) type ↦
    let (s, more) := rebindNodes s type except
    (s, rebound + more)) (s, 0)

/-- Applies a change of content types. Nodes of removed types go with their subtrees. Refreshed types
are stored, and their nodes bound to the new definitions, except for nodes with a kit among those
given, which are built from the kit. Kits of types that are not refreshed are ignored. -/
def updateTypes (s : σ) (removed : List ContentTypeId) (refreshed : List ContentType)
    (ks : List ContentKit) : σ × TypeRebuild :=
  let (s, removedNodes, removedTypes) := removeTypes s removed
  let s := refreshed.foldl putType s
  let ks := ks.filter fun k ↦ decide (k.contentTypeId ∈ refreshed.map ContentType.id)
  let (s, report) := Edit.setOrdered s ks
  let (s, reboundNodes) := rebindAll s refreshed (ks.map ContentKit.id)
  (s, { removedTypes, refreshedTypes := refreshed.length, removedNodes, reboundNodes,
        kits := report })

/-- Ids of the defined types that are not among some types. -/
def superseded (s : σ) (types : List ContentType) : List ContentTypeId :=
  ((LiveTables.types s).map ContentType.id).filter (· ∉ types.map ContentType.id)

/-- Replaces the whole set of content types: types not given are removed with their nodes, and every
given one is refreshed. -/
def setAllTypes (s : σ) (types : List ContentType) : σ × TypeRebuild :=
  updateTypes s (superseded s types) types []

/-- The defined types with a property that one of some data types backs, by id. -/
def affectedTypes (s : σ) (ids : List DataTypeId) : List ContentType :=
  (LiveTables.types s).filter fun type ↦ ids.any type.usesDataType

/-- Asks for a new definition of each of some types. The answers may depend on a state. -/
def resolveEach {ρ : Type} (resolve : ρ → ContentType → ρ × Option ContentType) :
    ρ → List ContentType → ρ × List ContentType
  | r, [] => (r, [])
  | r, type :: rest =>
    let (r, answer) := resolve r type
    let (r, answers) := resolveEach resolve r rest
    (r, answer.toList ++ answers)

/-- Refreshes every type with a property that one of some data types backs. The new definition is
asked for with the current one; no answer leaves the type as it is. -/
def updateDataTypes {ρ : Type} (s : σ) (ids : List DataTypeId)
    (resolve : ρ → ContentType → ρ × Option ContentType) (r : ρ) : σ × ρ × TypeRebuild :=
  let (r, refreshed) := resolveEach resolve r (affectedTypes s ids)
  let (s, rebuild) := updateTypes s [] refreshed []
  (s, r, rebuild)

end VersionedContent.Retype
