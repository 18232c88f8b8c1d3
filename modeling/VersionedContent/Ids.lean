import Std.Data.ExtTreeMap
import Std.Data.ExtTreeSet

/-!
Identifiers of nodes, content types and data types, each a 32 bit number with the order of its
value, and the version counter shared by every table of a store.
-/

set_option autoImplicit false

namespace VersionedContent

/-- Version counter of a store. Zero is the empty store; the first write opens generation one. -/
abbrev Generation := Nat

/-- Identifier of a content or media node. -/
structure ContentId where
  val : UInt32
deriving DecidableEq, Inhabited

/-- Identifier of a content type. -/
structure ContentTypeId where
  val : UInt32
deriving DecidableEq, Inhabited

/-- Identifier of a data type that backs a property. -/
structure DataTypeId where
  val : UInt32
deriving DecidableEq, Inhabited

instance : Ord ContentId := ⟨compareOn ContentId.val⟩

instance : Ord ContentTypeId := ⟨compareOn ContentTypeId.val⟩

instance : Std.TransOrd ContentId := inferInstanceAs (Std.TransCmp (compareOn ContentId.val))

instance : Std.TransOrd ContentTypeId :=
  inferInstanceAs (Std.TransCmp (compareOn ContentTypeId.val))

instance : Std.LawfulEqOrd ContentId where
  eq_of_compare {a b} h := by
    have hval : a.val = b.val := Std.LawfulEqOrd.eq_of_compare (show compare a.val b.val = .eq from h)
    cases a; cases b
    exact congrArg ContentId.mk hval

instance : Std.LawfulEqOrd ContentTypeId where
  eq_of_compare {a b} h := by
    have hval : a.val = b.val := Std.LawfulEqOrd.eq_of_compare (show compare a.val b.val = .eq from h)
    cases a; cases b
    exact congrArg ContentTypeId.mk hval

instance : ToString ContentId := ⟨fun id ↦ toString id.val⟩

instance : ToString ContentTypeId := ⟨fun id ↦ toString id.val⟩

instance : ToString DataTypeId := ⟨fun id ↦ toString id.val⟩

/-- How many node identifiers there are. A walk along parents that takes more steps than this has
met some node twice. -/
def ContentId.count : Nat := UInt32.size

end VersionedContent
