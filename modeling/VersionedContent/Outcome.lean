import VersionedContent.Ids

/-!
What editing a content tree reports: the outcome of one kit, the summary of a batch, and the summary
of a change of content types.
-/

set_option autoImplicit false

namespace VersionedContent

/-- Why a kit was not applied. -/
inductive SkipReason
  /-- The kit has neither a draft nor a published payload. -/
  | emptyKit
  /-- The content type is unknown. -/
  | missingContentType
  /-- The kit names itself as its parent. -/
  | selfParent
  /-- The parent does not exist. -/
  | missingParent
  /-- The parent is a descendant of the node. -/
  | cycle
deriving DecidableEq, Inhabited

/-- The name of a reason. -/
def SkipReason.name : SkipReason → String
  | .emptyKit => "empty_kit"
  | .missingContentType => "missing_content_type"
  | .selfParent => "self_parent"
  | .missingParent => "missing_parent"
  | .cycle => "cycle"

/-- Result of applying one kit. -/
inductive KitOutcome
  /-- The node did not exist before. -/
  | inserted
  /-- The node was replaced under the same parent. -/
  | updated
  /-- The node was replaced under a different parent. -/
  | moved
  /-- Nothing was written. -/
  | skipped (reason : SkipReason)
deriving DecidableEq, Inhabited

/-- Whether a kit was written. -/
def KitOutcome.isApplied : KitOutcome → Bool
  | .skipped _ => false
  | _ => true

/-- Summary of applying a batch of kits. -/
structure LoadReport where
  applied : Nat
  /-- Kits skipped, for any reason. -/
  skipped : Nat
  missingParent : Nat
  missingContentType : Nat
deriving DecidableEq, Inhabited

namespace LoadReport

/-- The report of an empty batch. -/
def zero : LoadReport := ⟨0, 0, 0, 0⟩

/-- The report with one more outcome. -/
def record (r : LoadReport) : KitOutcome → LoadReport
  | .skipped .missingParent =>
    { r with skipped := r.skipped + 1, missingParent := r.missingParent + 1 }
  | .skipped .missingContentType =>
    { r with skipped := r.skipped + 1, missingContentType := r.missingContentType + 1 }
  | .skipped _ => { r with skipped := r.skipped + 1 }
  | _ => { r with applied := r.applied + 1 }

end LoadReport

/-- Summary of a change of content types. -/
structure TypeRebuild where
  removedTypes : Nat
  /-- Content types stored, new or changed. -/
  refreshedTypes : Nat
  /-- Nodes removed with their type, subtrees included. -/
  removedNodes : Nat
  /-- Nodes bound to a refreshed definition without a new kit. -/
  reboundNodes : Nat
  kits : LoadReport
deriving DecidableEq, Inhabited

end VersionedContent
