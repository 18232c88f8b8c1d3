import VersionedContent.Failure
import VersionedContent.Json.Decoder
import VersionedContent.Json.Printer
import VersionedContent.Store

/-!
Kit dumps: the content types and kits of one store, as exchanged in files. Records are written with
every field in a fixed order; they are read with the rules of the decoder, absent parents, payloads,
templates, properties and lists standing for none.
-/

set_option autoImplicit false

namespace VersionedContent

open Json (Decoder ofNat ofOption)

namespace ItemKind

/-- The value of a kind. -/
def toJson (k : ItemKind) : Json := .string k.name

/-- Reads a kind. -/
def decoder : Decoder ItemKind := Decoder.name (all.map fun k ↦ (k.name, k))

end ItemKind

/-- The value of a 32 bit number. -/
def uint32Json (n : UInt32) : Json := ofNat n.toNat

namespace PropertyType

/-- The record of a property descriptor. -/
def toJson (p : PropertyType) : Json := .object [
  ("alias", .string p.handle),
  ("data_type_id", uint32Json p.dataTypeId.val),
  ("editor_alias", .string p.editorAlias)]

/-- The fields of a property descriptor read so far. -/
structure Parts where
  handle : Option String
  dataTypeId : Option DataTypeId
  editorAlias : Option String

/-- Reads a property descriptor. -/
def decoder : Decoder PropertyType :=
  Decoder.record [
      .of "alias" .string fun x (p : Parts) ↦ { p with handle := some x },
      .of "data_type_id" .uint32 fun x p ↦ { p with dataTypeId := some ⟨x⟩ },
      .of "editor_alias" .string fun x p ↦ { p with editorAlias := some x }]
    false ⟨none, none, none⟩
    fun p ↦ do return ⟨← p.handle, ← p.dataTypeId, ← p.editorAlias⟩

end PropertyType

namespace ContentType

/-- The record of a content type. -/
def toJson (t : ContentType) : Json := .object [
  ("id", uint32Json t.id.val),
  ("alias", .string t.handle),
  ("kind", t.kind.toJson),
  ("property_types", .array (t.propertyTypes.map PropertyType.toJson))]

/-- The fields of a content type read so far. -/
structure Parts where
  id : Option ContentTypeId
  handle : Option String
  kind : Option ItemKind
  propertyTypes : Option (List PropertyType)

/-- Reads a content type. -/
def decoder : Decoder ContentType :=
  Decoder.record [
      .of "id" .uint32 fun x (p : Parts) ↦ { p with id := some ⟨x⟩ },
      .of "alias" .string fun x p ↦ { p with handle := some x },
      .of "kind" ItemKind.decoder fun x p ↦ { p with kind := some x },
      .of "property_types" (.list PropertyType.decoder) fun x p ↦
        { p with propertyTypes := some x }]
    false ⟨none, none, none, none⟩
    fun p ↦ do return ⟨← p.id, ← p.handle, ← p.kind, p.propertyTypes.getD []⟩

end ContentType

namespace Timestamp

/-- The value of a timestamp. -/
def toJson (t : Timestamp) : Json := .string t.toText

/-- Reads a timestamp. -/
def decoder : Decoder Timestamp := Decoder.written Timestamp.ofText?

end Timestamp

namespace ContentData

/-- The record of a payload. -/
def toJson (d : ContentData) : Json := .object [
  ("name", .string d.name),
  ("version_id", uint32Json d.versionId),
  ("version_date", d.versionDate.toJson),
  ("writer_id", uint32Json d.writerId),
  ("template_id", ofOption uint32Json d.templateId),
  ("published", .bool d.published),
  ("properties", .object d.properties)]

/-- The fields of a payload read so far. -/
structure Parts where
  name : Option String
  versionId : Option UInt32
  versionDate : Option Timestamp
  writerId : Option UInt32
  templateId : Option (Option UInt32)
  published : Option Bool
  properties : Option (List (String × Json))

/-- Reads a payload. -/
def decoder : Decoder ContentData :=
  Decoder.record [
      .of "name" .string fun x (p : Parts) ↦ { p with name := some x },
      .of "version_id" .uint32 fun x p ↦ { p with versionId := some x },
      .of "version_date" Timestamp.decoder fun x p ↦ { p with versionDate := some x },
      .of "writer_id" .uint32 fun x p ↦ { p with writerId := some x },
      .of "template_id" (.optional .uint32) fun x p ↦ { p with templateId := some x },
      .of "published" .bool fun x p ↦ { p with published := some x },
      .of "properties" .members fun x p ↦ { p with properties := some x }]
    false ⟨none, none, none, none, none, none, none⟩
    fun p ↦ do
      return {
        name := ← p.name
        versionId := ← p.versionId
        versionDate := ← p.versionDate
        writerId := ← p.writerId
        templateId := p.templateId.getD none
        published := ← p.published
        properties := p.properties.getD [] }

end ContentData

namespace ContentKit

/-- The record of a kit. -/
def toJson (k : ContentKit) : Json := .object [
  ("id", uint32Json k.id.val),
  ("key", .string k.key.toText),
  ("parent_id", ofOption (fun id ↦ uint32Json id.val) k.parentId),
  ("content_type_id", uint32Json k.contentTypeId.val),
  ("level", uint32Json k.level),
  ("path", .string k.path),
  ("sort_order", .number (.int k.sortOrder.toInt)),
  ("create_date", k.createDate.toJson),
  ("creator_id", uint32Json k.creatorId),
  ("draft", ofOption ContentData.toJson k.draft),
  ("published", ofOption ContentData.toJson k.published)]

/-- The fields of a kit read so far. -/
structure Parts where
  id : Option ContentId
  key : Option Uuid
  parentId : Option (Option ContentId)
  contentTypeId : Option ContentTypeId
  level : Option UInt32
  path : Option String
  sortOrder : Option Int32
  createDate : Option Timestamp
  creatorId : Option UInt32
  draft : Option (Option ContentData)
  published : Option (Option ContentData)

/-- Reads a kit. -/
def decoder : Decoder ContentKit :=
  Decoder.record [
      .of "id" .uint32 fun x (p : Parts) ↦ { p with id := some ⟨x⟩ },
      .of "key" (.written Uuid.ofText?) fun x p ↦ { p with key := some x },
      .of "parent_id" (.optional .uint32) fun x p ↦
        { p with parentId := some (x.map ContentId.mk) },
      .of "content_type_id" .uint32 fun x p ↦ { p with contentTypeId := some ⟨x⟩ },
      .of "level" .uint32 fun x p ↦ { p with level := some x },
      .of "path" .string fun x p ↦ { p with path := some x },
      .of "sort_order" .int32 fun x p ↦ { p with sortOrder := some x },
      .of "create_date" Timestamp.decoder fun x p ↦ { p with createDate := some x },
      .of "creator_id" .uint32 fun x p ↦ { p with creatorId := some x },
      .of "draft" (.optional ContentData.decoder) fun x p ↦ { p with draft := some x },
      .of "published" (.optional ContentData.decoder) fun x p ↦ { p with published := some x }]
    false ⟨none, none, none, none, none, none, none, none, none, none, none⟩
    fun p ↦ do
      return {
        id := ← p.id
        key := ← p.key
        parentId := p.parentId.getD none
        contentTypeId := ← p.contentTypeId
        level := ← p.level
        path := ← p.path
        sortOrder := ← p.sortOrder
        createDate := ← p.createDate
        creatorId := ← p.creatorId
        draft := p.draft.getD none
        published := p.published.getD none }

end ContentKit

/-- The content types and kits of one store. -/
structure KitDump where
  contentTypes : List ContentType
  /-- Kits in any order. -/
  kits : List ContentKit
deriving DecidableEq

namespace KitDump

/-- The record of a dump. -/
def toJson (d : KitDump) : Json := .object [
  ("content_types", .array (d.contentTypes.map ContentType.toJson)),
  ("kits", .array (d.kits.map ContentKit.toJson))]

/-- The fields of a dump read so far. -/
structure Parts where
  contentTypes : Option (List ContentType)
  kits : Option (List ContentKit)

/-- Reads a dump. -/
def decoder : Decoder KitDump :=
  Decoder.record [
      .of "content_types" (.list ContentType.decoder) fun x (p : Parts) ↦
        { p with contentTypes := some x },
      .of "kits" (.list ContentKit.decoder) fun x p ↦ { p with kits := some x }]
    false ⟨none, none⟩
    fun p ↦ some ⟨p.contentTypes.getD [], p.kits.getD []⟩

/-- Reads a dump from a text, bytes that encode no character included. -/
def ofGlyphs (gs : List Json.Glyph) : Except Failure KitDump :=
  (Decoder.document decoder gs).mapError .json

/-- Reads a dump from a text. -/
def ofText (s : String) : Except Failure KitDump := ofGlyphs (Json.glyphs s)

/-- The text of a dump file. -/
def toFileText (d : KitDump) : String := d.toJson.toPrettyText ++ "\n"

/-- Replaces the content of a store with a dump, in one section. -/
def applyTo (d : KitDump) (s : ContentStore) : ContentStore × TypeRebuild × LoadReport :=
  s.write fun s ↦
    let (s, rebuild) := s.setAllTypes d.contentTypes
    let (s, report) := s.setAll d.kits
    (s, rebuild, report)

end KitDump

end VersionedContent
