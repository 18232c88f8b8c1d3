import VersionedContent.Dump
import VersionedContent.Proofs.RecordReading
import VersionedContent.Proofs.WrittenForms

/-!
# Dumps that were read are read back

Whatever text a dump was read from, it can be written, and each of its written forms is read as the
same dump (`KitDump.ofText_written`), as long as its property values hold no doubles. This goes by
way of what every dump that was read satisfies (`KitDump.Readable`): its dates have a written form,
and its property values can be read.
-/

set_option autoImplicit false

namespace VersionedContent

open Json Json.Decoder Json.Fragment

variable {depth : Nat}

theorem uint32Json_ne_null (n : UInt32) : uint32Json n ≠ .null := nofun

theorem allNumbers_uint32Json (n : UInt32) :
    (uint32Json n).allNumbers Number.isExact = true := by
  have hlt := n.toNat_lt
  rw [uint32Json, ofNat, allNumbers, Number.isExact_int_iff]
  omega

theorem allItemNumbers_map {α : Type} {e : α → Json} {as : List α}
    (h : ∀ a ∈ as, (e a).allNumbers Number.isExact = true) :
    allItemNumbers Number.isExact (as.map e) = true := by
  rw [allItemNumbers_eq_all, List.all_map, List.all_eq_true]
  exact h

theorem allNumbers_ofOption {α : Type} {e : α → Json} {o : Option α}
    (h : ∀ a ∈ o, (e a).allNumbers Number.isExact = true) :
    (ofOption e o).allNumbers Number.isExact = true := by
  cases o with
  | none => rfl
  | some a => exact h a rfl

/-! ### Content types -/

theorem ItemKind.decoder_toJson (k : ItemKind) :
    ItemKind.decoder depth (ofValue k.toJson) = .ok k := by
  cases k <;> rfl

theorem PropertyType.decoder_toJson (p : PropertyType) :
    PropertyType.decoder (depth + 1) (ofValue p.toJson) = .ok p :=
  record_ofValue (by decide)
    (filled_of (string_ofValue depth p.handle) <|
      filled_of (uint32_ofValue depth p.dataTypeId.val) <|
      filled_of (string_ofValue depth p.editorAlias) rfl) rfl

theorem PropertyType.allNumbers_toJson (p : PropertyType) :
    p.toJson.allNumbers Number.isExact = true := by
  simp [toJson, allNumbers, allMemberNumbers, allNumbers_uint32Json]

theorem ContentType.decoder_toJson (t : ContentType) :
    ContentType.decoder (depth + 3) (ofValue t.toJson) = .ok t :=
  record_ofValue (by decide)
    (filled_of (uint32_ofValue (depth + 2) t.id.val) <|
      filled_of (string_ofValue (depth + 2) t.handle) <|
      filled_of (ItemKind.decoder_toJson t.kind) <|
      filled_of (list_ofValue fun p _ ↦ PropertyType.decoder_toJson p) rfl) rfl

theorem ContentType.allNumbers_toJson (t : ContentType) :
    t.toJson.allNumbers Number.isExact = true := by
  have hproperties := allItemNumbers_map fun p (_ : p ∈ t.propertyTypes) ↦ p.allNumbers_toJson
  simp [toJson, ItemKind.toJson, allNumbers, allMemberNumbers, allNumbers_uint32Json, hproperties]

/-! ### Payloads -/

theorem Timestamp.gives_decoder : Gives decoder depth fun t ↦ t.isValid = true :=
  gives_written isValid_of_ofText?

namespace ContentData

/-- What holds of a payload that was read: its date has a written form, and its property values can
be read again. -/
structure Readable (depth : Nat) (d : ContentData) : Prop where
  versionDate : d.versionDate.isValid = true
  properties : SettledMembers depth d.properties

theorem gives_decoder (depth : Nat) : Gives decoder (depth + 2) (Readable depth) := by
  have hproperties : Gives members (depth + 1) (SettledMembers depth) := gives_members
  refine gives_record (I := fun p ↦ PartHas Parts.versionDate (·.isValid = true) p ∧
    PartHas Parts.properties (SettledMembers depth) p) ⟨nofun, nofun⟩ ?_ ?_
  · refine keeps_and ?_ ?_ <;>
      simp only [List.forall_mem_cons, List.not_mem_nil, false_implies,
        keeps_part Timestamp.gives_decoder, keeps_part hproperties, keeps_other, implies_true,
        and_self]
  · rintro p d ⟨hdate, hproperties⟩ hfinish
    simp only [Option.bind_eq_bind, Option.bind_eq_some_iff, Option.pure_def,
      Option.some.injEq] at hfinish
    obtain ⟨_, -, _, -, date, hgiven, _, -, _, -, rfl⟩ := hfinish
    exact ⟨hdate date hgiven, hproperties.getD trivial⟩

theorem toJson_ne_null (d : ContentData) : d.toJson ≠ .null := nofun

theorem decoder_toJson {d : ContentData} (h : d.Readable depth) :
    decoder (depth + 2) (ofValue d.toJson) = .ok d :=
  record_ofValue (by decide)
    (filled_of (string_ofValue (depth + 1) d.name) <|
      filled_of (uint32_ofValue (depth + 1) d.versionId) <|
      filled_of (written_ofValue (Timestamp.ofText?_toText h.versionDate) (depth + 1)) <|
      filled_of (uint32_ofValue (depth + 1) d.writerId) <|
      filled_of (optional_ofValue fun n _ ↦ ⟨uint32Json_ne_null n, uint32_ofValue (depth + 1) n⟩) <|
      filled_of (bool_ofValue (depth + 1) d.published) <|
      filled_of (members_ofValue h.properties) rfl) rfl

/-- A payload is printed exactly unless one of its property values holds a double. -/
theorem Readable.allNumbers_toJson {d : ContentData} (h : d.Readable depth)
    (hwhole : allMemberNumbers Number.isInt d.properties = true) :
    d.toJson.allNumbers Number.isExact = true := by
  have hproperties := allMemberNumbers_isExact d.properties h.properties hwhole
  have htemplate := allNumbers_ofOption (o := d.templateId) fun n _ ↦ allNumbers_uint32Json n
  simp [toJson, Timestamp.toJson, allNumbers, allMemberNumbers, allNumbers_uint32Json, hproperties,
    htemplate]

end ContentData

/-! ### Kits -/

namespace ContentKit

/-- What holds of a kit that was read: its dates have a written form, and the property values of its
payloads can be read again. -/
structure Readable (depth : Nat) (k : ContentKit) : Prop where
  createDate : k.createDate.isValid = true
  draft : ∀ d ∈ k.draft, d.Readable depth
  published : ∀ d ∈ k.published, d.Readable depth

theorem gives_decoder (depth : Nat) : Gives decoder (depth + 3) (Readable depth) := by
  have hpayload := gives_optional (ContentData.gives_decoder depth)
  refine gives_record (I := fun p ↦ PartHas Parts.createDate (·.isValid = true) p ∧
    PartHas Parts.draft (fun o ↦ ∀ d ∈ o, d.Readable depth) p ∧
    PartHas Parts.published (fun o ↦ ∀ d ∈ o, d.Readable depth) p) ⟨nofun, nofun, nofun⟩ ?_ ?_
  · refine keeps_and ?_ (keeps_and ?_ ?_) <;>
      simp only [List.forall_mem_cons, List.not_mem_nil, false_implies,
        keeps_part Timestamp.gives_decoder, keeps_part hpayload, keeps_other, implies_true,
        and_self]
  · rintro p k ⟨hdate, hdraft, hpublished⟩ hfinish
    simp only [Option.bind_eq_bind, Option.bind_eq_some_iff, Option.pure_def,
      Option.some.injEq] at hfinish
    obtain ⟨_, -, _, -, _, -, _, -, _, -, _, -, date, hgiven, _, -, rfl⟩ := hfinish
    exact ⟨hdate date hgiven, hdraft.getD nofun, hpublished.getD nofun⟩

theorem decoder_toJson {k : ContentKit} (h : k.Readable depth) :
    decoder (depth + 3) (ofValue k.toJson) = .ok k := by
  have hparent : optional uint32 (depth + 2)
      (ofValue (ofOption (fun id ↦ uint32Json id.val) k.parentId)) =
        .ok (k.parentId.map ContentId.val) := by
    cases k.parentId with
    | none => rfl
    | some id =>
      exact optional_ofValue (o := some id.val)
        fun n _ ↦ ⟨uint32Json_ne_null n, uint32_ofValue (depth + 2) n⟩
  refine record_ofValue (by decide)
    (filled_of (uint32_ofValue (depth + 2) k.id.val) <|
      filled_of (written_ofValue (Uuid.ofText?_toText k.key) (depth + 2)) <|
      filled_of hparent <|
      filled_of (uint32_ofValue (depth + 2) k.contentTypeId.val) <|
      filled_of (uint32_ofValue (depth + 2) k.level) <|
      filled_of (string_ofValue (depth + 2) k.path) <|
      filled_of (int32_ofValue (depth + 2) k.sortOrder) <|
      filled_of (written_ofValue (Timestamp.ofText?_toText h.createDate) (depth + 2)) <|
      filled_of (uint32_ofValue (depth + 2) k.creatorId) <|
      filled_of (optional_ofValue fun d hd ↦
        ⟨d.toJson_ne_null, ContentData.decoder_toJson (h.draft d hd)⟩) <|
      filled_of (optional_ofValue fun d hd ↦
        ⟨d.toJson_ne_null, ContentData.decoder_toJson (h.published d hd)⟩) rfl) ?_
  obtain ⟨-, -, parentId, -⟩ := k
  cases parentId <;> rfl

/-- The payloads of a kit. -/
def payloads (k : ContentKit) : List ContentData := k.draft.toList ++ k.published.toList

/-- The dates of a kit and its payloads. -/
def dates (k : ContentKit) : List Timestamp :=
  k.createDate :: k.payloads.map ContentData.versionDate

theorem mem_payloads {k : ContentKit} {d : ContentData} :
    d ∈ k.payloads ↔ d ∈ k.draft ∨ d ∈ k.published := by
  simp [payloads]

theorem Readable.isValid_of_mem_dates {k : ContentKit} (h : k.Readable depth) :
    ∀ date ∈ k.dates, date.isValid = true := by
  refine List.forall_mem_cons.mpr ⟨h.createDate, fun date hdate ↦ ?_⟩
  obtain ⟨d, hd, rfl⟩ := List.mem_map.mp hdate
  rcases mem_payloads.mp hd with hdraft | hpublished
  · exact (h.draft d hdraft).versionDate
  · exact (h.published d hpublished).versionDate

/-- A kit is printed exactly unless one of its property values holds a double. -/
theorem Readable.allNumbers_toJson {k : ContentKit} (h : k.Readable depth)
    (hwhole : ∀ d ∈ k.payloads, allMemberNumbers Number.isInt d.properties = true) :
    k.toJson.allNumbers Number.isExact = true := by
  have hparent := allNumbers_ofOption (o := k.parentId) fun id _ ↦ allNumbers_uint32Json id.val
  have hsort : Number.isExact (.int k.sortOrder.toInt) = true := by
    have hle := k.sortOrder.le_toInt
    have hlt := k.sortOrder.toInt_lt
    rw [Number.isExact_int_iff]
    omega
  have hdraft := allNumbers_ofOption fun d hd ↦
    (h.draft d hd).allNumbers_toJson (hwhole d (mem_payloads.mpr (Or.inl hd)))
  have hpublished := allNumbers_ofOption fun d hd ↦
    (h.published d hd).allNumbers_toJson (hwhole d (mem_payloads.mpr (Or.inr hd)))
  simp [toJson, Timestamp.toJson, allNumbers, allMemberNumbers, allNumbers_uint32Json, hparent,
    hsort, hdraft, hpublished]

end ContentKit

/-! ### Dumps -/

namespace KitDump

/-- What holds of a dump that was read: its dates have a written form, and its property values can
be read again. -/
def Readable (depth : Nat) (d : KitDump) : Prop := ∀ kit ∈ d.kits, kit.Readable depth

theorem gives_decoder (depth : Nat) : Gives decoder (depth + 5) (Readable depth) := by
  have hkits := gives_list (ContentKit.gives_decoder depth)
  refine gives_record (I := PartHas Parts.kits fun kits ↦ ∀ kit ∈ kits, kit.Readable depth)
    nofun ?_ ?_
  · simp only [List.forall_mem_cons, List.not_mem_nil, false_implies, keeps_part hkits, keeps_other,
      implies_true, and_self]
  · rintro p d hp ⟨⟩
    exact hp.getD nofun

theorem decoder_toJson {d : KitDump} (h : d.Readable depth) :
    decoder (depth + 5) (ofValue d.toJson) = .ok d :=
  record_ofValue (by decide)
    (filled_of (list_ofValue fun t _ ↦ ContentType.decoder_toJson t) <|
      filled_of (list_ofValue fun k hk ↦ ContentKit.decoder_toJson (h k hk)) rfl) rfl

/-- Every dump that is read can be read again. -/
theorem readable_of_ofGlyphs {gs : List Glyph} {d : KitDump} (h : ofGlyphs gs = .ok d) :
    d.Readable 122 :=
  gives_document (gives_decoder 122) (mapError_eq_ok.mp h)

/-- Whether no property value of a dump holds a double. In a dump that was read, doubles are the
numbers that were spelled with a fraction or an exponent, do not fit 64 bits, or are a negative
zero (`Json.Number.value?_eq_int_iff`). -/
def HasWholeValues (d : KitDump) : Prop :=
  ∀ kit ∈ d.kits, ∀ payload ∈ kit.payloads,
    allMemberNumbers Number.isInt payload.properties = true

theorem allNumbers_toJson {d : KitDump} (h : d.Readable depth) (hwhole : d.HasWholeValues) :
    d.toJson.allNumbers Number.isExact = true := by
  have htypes := allItemNumbers_map fun t (_ : t ∈ d.contentTypes) ↦ t.allNumbers_toJson
  have hkits := allItemNumbers_map fun kit hkit ↦ (h kit hkit).allNumbers_toJson (hwhole kit hkit)
  simp [toJson, allNumbers, allMemberNumbers, htypes, hkits]

/-- The ways to write a dump: compact, pretty, and as the text of a file. -/
def writers : List (KitDump → String) :=
  [fun d ↦ d.toJson.toText, fun d ↦ d.toJson.toPrettyText, toFileText]

/-- A dump that satisfies what dumps that were read satisfy is read back from each of its written
forms. -/
theorem ofText_writers {d : KitDump} (h : d.Readable 122) (hwhole : d.HasWholeValues)
    {write : KitDump → String} (hwrite : write ∈ writers) : ofText (write d) = .ok d := by
  have hspaced (g : Spacing) (tail : List Glyph) (hends : Ends tail) (htail : token tail = []) :
      ofGlyphs ((spaced g 0 d.toJson).map some ++ tail) = .ok d :=
    mapError_eq_ok.mpr
      (document_spaced g (allNumbers_toJson h hwhole) (decoder_toJson h) hends htail)
  simp only [writers, List.mem_cons, List.not_mem_nil, or_false] at hwrite
  rcases hwrite with rfl | rfl | rfl
  · have hread := hspaced .none [] nofun rfl
    rw [List.append_nil, spaced_none] at hread
    change ofText (String.ofList _) = _
    rwa [ofText, glyphs, String.toList_ofList]
  · have hread := hspaced .lines [] nofun rfl
    rw [List.append_nil, spaced_lines] at hread
    change ofText (String.ofList _) = _
    rwa [ofText, glyphs, String.toList_ofList]
  · have hread := hspaced .lines [some '\n'] (by rintro _ ⟨⟩; decide) rfl
    rw [spaced_lines] at hread
    rwa [ofText, glyphs, toFileText, String.toList_append, Json.toPrettyText, String.toList_ofList,
      List.map_append]

/-- Whatever text a dump was read from, every date of it has a written form, so it can be written.
Unless its property values hold doubles, each way to write it gives a text that is read as the same
dump, and so is written the same way once more. -/
theorem ofText_write_ofText {s : String} {d : KitDump} (hread : ofText s = .ok d)
    (hwhole : d.HasWholeValues) :
    (∀ kit ∈ d.kits, ∀ date ∈ kit.dates, date.isValid = true) ∧
      ∀ write ∈ writers, ofText (write d) = .ok d ∧
        (ofText (write d)).map write = .ok (write d) := by
  have hreadable := readable_of_ofGlyphs hread
  refine ⟨fun kit hkit ↦ (hreadable kit hkit).isValid_of_mem_dates, fun write hwrite ↦ ?_⟩
  have hagain := ofText_writers hreadable hwhole hwrite
  exact ⟨hagain, by rw [hagain]; rfl⟩

/-- A text with records spelled as arrays that leave out their last fields, a name as an object, an
identifier without hyphens, a leap second, and a property given twice. -/
def looseText : String :=
  "\x7b\"content_types\":[[1,\"page\",\x7b\"content\":null\x7d]],\"kits\":[[5," ++
    "\"67E5504410B1426F9247BB680E5FE0C8\",null,1,1,\"-1,5\",-2,\"2016-12-31T23:59:60Z\",0,[" ++
    "\"\\u00e9\",7,\"2024-05-06t07:08:09.120+02:30\",3,null,false," ++
    "\x7b\"b\":[1,\x7b\x7d],\"a\":1.5,\"a\":-4\x7d]]]\x7d"

/-- The dump that the text spells. -/
def looseDump : KitDump where
  contentTypes := [ContentType.new ⟨1⟩ "page" .content]
  kits := [{
    id := ⟨5⟩
    key := Uuid.ofNat 0x67e5504410b1426f9247bb680e5fe0c8
    parentId := none
    contentTypeId := ⟨1⟩
    level := 1
    path := "-1,5"
    sortOrder := -2
    createDate := ⟨2016, 12, 31, 23, 59, 59, 999999999, 0⟩
    creatorId := 0
    draft := some {
      name := "é"
      versionId := 7
      versionDate := ⟨2024, 5, 6, 7, 8, 9, 120000000, 150⟩
      writerId := 3
      templateId := none
      published := false
      properties := [
        ("a", .number (.int (-4))),
        ("b", .array [.number (.int 1), .object []])] }
    published := none }]

theorem ofText_write_ofText_looseText :
    ofText looseText = .ok looseDump ∧ looseDump.HasWholeValues ∧
      (∀ kit ∈ looseDump.kits, ∀ date ∈ kit.dates, date.isValid = true) ∧
        ∀ write ∈ writers, ofText (write looseDump) = .ok looseDump ∧
          (ofText (write looseDump)).map write = .ok (write looseDump) := by
  have hread : ofText looseText = .ok looseDump := by
    -- the pieces of the text are taken apart one by one
    unfold ofText glyphs looseText
    rewrite [String.toList_append, String.toList_append, String.toList_append]
    decide +kernel
  have hwhole : looseDump.HasWholeValues := by
    unfold HasWholeValues
    decide +kernel
  exact ⟨hread, hwhole, ofText_write_ofText hread hwhole⟩

end KitDump

end VersionedContent
