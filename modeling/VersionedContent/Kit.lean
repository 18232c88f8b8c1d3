import VersionedContent.ContentType
import VersionedContent.Json.Value
import VersionedContent.Timestamp
import VersionedContent.Uuid

/-!
Kits: descriptions of nodes as the editorial side hands them to a store. A kit carries a draft
payload, a published one, both, or none, in which case it is empty.
-/

set_option autoImplicit false

namespace VersionedContent

/-- One draft or published revision of a node. -/
structure ContentData where
  name : String
  versionId : UInt32
  versionDate : Timestamp
  writerId : UInt32
  templateId : Option UInt32
  published : Bool
  /-- Property values under the short names of their properties, in the order of these. -/
  properties : List (String × Json)
deriving DecidableEq

namespace ContentData

/-- A payload without properties. -/
def new (name : String) (versionId : UInt32) (published : Bool) (now : Timestamp) : ContentData where
  name
  versionId
  versionDate := now
  writerId := 0
  templateId := none
  published
  properties := []

/-- The payload with one property set. -/
def withProperty (d : ContentData) (handle : String) (value : Json) : ContentData :=
  { d with properties := Json.insertMember handle value d.properties }

end ContentData

/-- Description of a node. -/
structure ContentKit where
  id : ContentId
  key : Uuid
  /-- Parent, none for top-level nodes. -/
  parentId : Option ContentId
  contentTypeId : ContentTypeId
  /-- Depth in the tree, one at the top. -/
  level : UInt32
  /-- Ids from the top down, separated by commas, after `-1`. -/
  path : String
  sortOrder : Int32
  createDate : Timestamp
  creatorId : UInt32
  draft : Option ContentData
  published : Option ContentData
deriving DecidableEq

namespace ContentKit

/-- The path of a top-level node. -/
def rootPath (id : ContentId) : String := s!"-1,{id}"

/-- A top-level kit without payloads. -/
def new (id : ContentId) (contentTypeId : ContentTypeId) (key : Uuid) (now : Timestamp) :
    ContentKit where
  id
  key
  parentId := none
  contentTypeId
  level := 1
  path := rootPath id
  sortOrder := 0
  createDate := now
  creatorId := 0
  draft := none
  published := none

/-- The kit placed below a parent, whose level and path give its own. -/
def under (k parent : ContentKit) : ContentKit :=
  { k with
    parentId := some parent.id
    level := parent.level + 1
    path := s!"{parent.path},{k.id}" }

/-- The kit moved to the top level. -/
def atRoot (k : ContentKit) : ContentKit :=
  { k with parentId := none, level := 1, path := rootPath k.id }

/-- The kit at a position among its siblings. -/
def withSortOrder (k : ContentKit) (sortOrder : Int32) : ContentKit := { k with sortOrder }

/-- The kit with a draft payload. -/
def withDraft (k : ContentKit) (data : ContentData) : ContentKit := { k with draft := some data }

/-- The kit with a published payload. -/
def withPublished (k : ContentKit) (data : ContentData) : ContentKit :=
  { k with published := some data }

/-- Whether the kit carries no payload at all. -/
def isEmpty (k : ContentKit) : Bool := k.draft.isNone && k.published.isNone

end ContentKit

end VersionedContent
