import VersionedContent.View

/-!
The links of a tree: every child listed by a node exists and points back to it, every parent exists
and lists the node, and every node without a parent is a root. The check walks the nodes in the
order of a listing and reports the first problem.
-/

set_option autoImplicit false

namespace VersionedContent

/-- A broken link of a tree. -/
inductive LinkProblem
  | missingChild (node child : ContentId)
  | foreignChild (node child : ContentId)
  | missingParent (node parent : ContentId)
  | unlistedChild (node parent : ContentId)
  | unlistedRoot (node : ContentId)
deriving DecidableEq

/-- The wording of a problem. -/
def LinkProblem.message : LinkProblem → String
  | .missingChild node child => s!"node {node} lists missing child {child}"
  | .foreignChild node child => s!"child {child} does not point back to {node}"
  | .missingParent node parent => s!"node {node} has missing parent {parent}"
  | .unlistedChild node parent => s!"parent {parent} does not list {node}"
  | .unlistedRoot node => s!"top-level node {node} is not a root"

namespace ContentView

/-- The problem with a node's link to a child. -/
def childProblem? (v : ContentView) (n : ContentNode) (child : ContentId) : Option LinkProblem :=
  match v.node? child with
  | none => some (.missingChild n.id child)
  | some c => if c.parentId = some n.id then none else some (.foreignChild n.id child)

/-- The problem with a node's link to its parent, or to the roots with the given ids. -/
def parentProblem? (v : ContentView) (roots : List ContentId) (n : ContentNode) :
    Option LinkProblem :=
  match n.parentId with
  | some parent =>
    match v.node? parent with
    | none => some (.missingParent n.id parent)
    | some p => if n.id ∈ p.childIds then none else some (.unlistedChild n.id parent)
  | none => if n.id ∈ roots then none else some (.unlistedRoot n.id)

/-- The first problem with the links of a node in a tree with the given roots. -/
def nodeProblem? (v : ContentView) (roots : List ContentId) (n : ContentNode) :
    Option LinkProblem :=
  (n.childIds.findSome? (v.childProblem? n)).or (v.parentProblem? roots n)

/-- The first problem with the links of a tree. -/
def linkProblem? (v : ContentView) : Option LinkProblem :=
  let roots := v.atRoot.map ContentNode.id
  v.all.findSome? (v.nodeProblem? roots)

end ContentView

end VersionedContent
