import VersionedContent.View

/-!
The tree as a reader is shown it: nested entries, siblings by sort order and id, down to a number of
levels, and the indented text of such entries. The top level is always shown.
-/

set_option autoImplicit false

namespace VersionedContent

/-- One node of an outline, with the entries below it. -/
inductive OutlineEntry
  | mk (id : ContentId) (name : Option String) (type : ContentTypeId) (handle : String)
      (sortOrder : Int32) (published : Bool) (children : List OutlineEntry)

namespace ContentView

/-- The entry of a node at a depth, with the levels below it as far as they are asked for. The first
argument bounds the number of levels that a tree can have. -/
def outlineEntry (v : ContentView) (preview : Bool) (maxDepth : Option Nat) :
    Nat → Nat → ContentNode → OutlineEntry
  | bound, depth, n =>
    .mk n.id (n.name? preview) n.contentType.id n.contentType.handle n.sortOrder
      n.published.isSome
      (match bound with
      | 0 => []
      | bound + 1 =>
        if maxDepth.any (· ≤ depth) then []
        else (v.children n.id).map (v.outlineEntry preview maxDepth bound (depth + 1)))

/-- The outline of the tree. -/
def outline (v : ContentView) (preview : Bool) (maxDepth : Option Nat) : List OutlineEntry :=
  v.atRoot.map (v.outlineEntry preview maxDepth ContentId.count 1)

end ContentView

namespace OutlineEntry

/-- The line of one entry: its id, the name shown, the type, and a mark for drafts. -/
def line (indent : Nat) (id : ContentId) (name : Option String) (handle : String)
    (published : Bool) : String :=
  let margin := String.ofList (List.replicate (2 * indent) ' ')
  let shown := name.getD "<no payload>"
  let mark := if published then "" else " draft"
  s!"{margin}- [{id}] {shown} ({handle}){mark}\n"

mutual

/-- The lines of an entry and of those below it. -/
def lines (indent : Nat) : OutlineEntry → List String
  | .mk id name _ handle _ published children =>
    line indent id name handle published :: linesOf (indent + 1) children

/-- The lines of several entries. -/
def linesOf (indent : Nat) : List OutlineEntry → List String
  | [] => []
  | e :: rest => lines indent e ++ linesOf indent rest

end

/-- The text of an outline. -/
def toText (entries : List OutlineEntry) : String := String.join (linesOf 0 entries)

end OutlineEntry

end VersionedContent
