import VersionedContent.Ids

/-!
Content types: what kind of item a node is, and which properties it has, each backed by a data
type.
-/

set_option autoImplicit false

namespace VersionedContent

/-- Kind of published item. -/
inductive ItemKind
  | content
  | media
  | member
  | element
deriving DecidableEq, Inhabited

namespace ItemKind

/-- The name of a kind. -/
def name : ItemKind → String
  | .content => "content"
  | .media => "media"
  | .member => "member"
  | .element => "element"

/-- Every kind. -/
def all : List ItemKind := [.content, .media, .member, .element]

/-- The name of a kind in diagnostics. -/
def describe : ItemKind → String
  | .content => "Content"
  | .media => "Media"
  | .member => "Member"
  | .element => "Element"

end ItemKind

/-- Property descriptor of a content type. -/
structure PropertyType where
  /-- Short name, unique within the content type. -/
  handle : String
  dataTypeId : DataTypeId
  editorAlias : String
deriving DecidableEq, Inhabited

/-- Definition of a content type. -/
structure ContentType where
  id : ContentTypeId
  /-- Short name, unique among the types of a store. -/
  handle : String
  kind : ItemKind
  /-- Property descriptors in the order of their declaration. -/
  propertyTypes : List PropertyType
deriving DecidableEq, Inhabited

namespace ContentType

/-- A type without properties. -/
def new (id : ContentTypeId) (handle : String) (kind : ItemKind) : ContentType :=
  ⟨id, handle, kind, []⟩

/-- The type with one more property descriptor at the end. -/
def withProperty (t : ContentType) (handle : String) (dataTypeId : DataTypeId)
    (editorAlias : String) : ContentType :=
  { t with propertyTypes := t.propertyTypes ++ [⟨handle, dataTypeId, editorAlias⟩] }

/-- The first descriptor of a property, by its short name. -/
def propertyType? (t : ContentType) (handle : String) : Option PropertyType :=
  t.propertyTypes.find? (·.handle == handle)

/-- Whether any property is backed by a data type. -/
def usesDataType (t : ContentType) (id : DataTypeId) : Bool :=
  t.propertyTypes.any (·.dataTypeId == id)

end ContentType

end VersionedContent
