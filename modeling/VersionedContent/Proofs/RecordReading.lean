import Mathlib.Data.List.Nodup
import VersionedContent.Proofs.ReadValues

/-!
# Records that were read

What a decoder reads from a text satisfies whatever its parts satisfy (`Json.Decoder.Gives`), for a
record by an invariant of the fields read so far (`Json.Decoder.gives_record`). A record is read
back from the object of its fields in their order (`Json.Decoder.record_ofValue`).
-/

set_option autoImplicit false

namespace VersionedContent.Json.Decoder

open Fragment

variable {α β σ : Type} {depth : Nat}

/-! ### What is read -/

/-- Whatever a decoder reads from a text, where so many more levels may be opened, satisfies some
property. -/
def Gives (d : Decoder α) (depth : Nat) (P : α → Prop) : Prop :=
  ∀ ⦃f a⦄, f.Bounded → d depth f = .ok a → P a

theorem gives_true (d : Decoder α) : Gives d depth fun _ ↦ True := fun _ _ _ _ ↦ trivial

theorem gives_written {parse : String → Option α} {P : α → Prop}
    (h : ∀ {s a}, parse s = some a → P a) : Gives (written parse) depth P := by
  intro f a _ hread
  obtain ⟨s, -, hread⟩ := bind_eq_ok.mp hread
  cases hparse : parse s with
  | none =>
    rw [hparse] at hread
    exact absurd hread nofun
  | some b =>
    rw [hparse] at hread
    cases hread
    exact h hparse

theorem gives_optional {d : Decoder α} {P : α → Prop} (h : Gives d depth P) :
    Gives (optional d) depth fun o ↦ ∀ a ∈ o, P a := by
  intro f o hf hread
  unfold optional at hread
  split at hread
  · cases hread
    exact nofun
  · obtain ⟨a, ha, rfl⟩ := map_eq_ok.mp hread
    rintro _ ⟨⟩
    exact h hf ha

theorem gives_items {d : Decoder α} {P : α → Prop} (h : Gives d depth P) {fs : List Fragment}
    {as : List α} (hfs : BoundedItems fs) (hread : items d depth fs = .ok as) :
    ∀ a ∈ as, P a := by
  induction fs generalizing as with
  | nil =>
    cases hread
    exact nofun
  | cons f fs ih =>
    obtain ⟨a, ha, hread⟩ := bind_eq_ok.mp hread
    obtain ⟨rest, hrest, hread⟩ := bind_eq_ok.mp hread
    cases hread
    exact List.forall_mem_cons.mpr ⟨h hfs.1 ha, ih hfs.2 hrest⟩

theorem gives_list {d : Decoder α} {P : α → Prop} (h : Gives d depth P) :
    Gives (list d) (depth + 1) fun as ↦ ∀ a ∈ as, P a := by
  intro f as hf hread
  unfold list at hread
  split at hread
  · exact absurd hread nofun
  · next hdepth =>
    cases hdepth
    obtain ⟨_, has, hread⟩ := bind_eq_ok.mp hread
    obtain ⟨_, -, hread⟩ := bind_eq_ok.mp hread
    cases hread
    exact gives_items h hf has
  · exact absurd hread nofun

theorem gives_members : Gives members (depth + 1) (SettledMembers depth) :=
  fun _ _ ↦ settledMembers_of_members

/-- Whether storing a field keeps a property of the fields read so far. -/
def Keeps (depth : Nat) (I : σ → Prop) (field : Field σ) : Prop :=
  Gives field.read depth fun store ↦ ∀ s, I s → I (store s)

theorem keeps_of {name : String} {d : Decoder α} {P : α → Prop} {store : α → σ → σ}
    {I : σ → Prop} (hd : Gives d depth P) (hstore : ∀ a s, P a → I s → I (store a s)) :
    Keeps depth I (.of name d store) := by
  intro f _ hf hread s hs
  obtain ⟨a, ha, rfl⟩ := map_eq_ok.mp hread
  exact hstore a s (hd hf ha) hs

theorem keeps_and {fields : List (Field σ)} {I J : σ → Prop}
    (hI : ∀ field ∈ fields, Keeps depth I field) (hJ : ∀ field ∈ fields, Keeps depth J field) :
    ∀ field ∈ fields, Keeps depth (fun s ↦ I s ∧ J s) field :=
  fun field hfield _ _ hf hread s hs ↦
    ⟨hI field hfield hf hread s hs.1, hJ field hfield hf hread s hs.2⟩

/-- Whether what was read for a part of a record, if anything was, has a property. -/
def PartHas (part : σ → Option α) (P : α → Prop) (s : σ) : Prop := ∀ a ∈ part s, P a

/-- A field that is stored into a part. -/
theorem keeps_part {name : String} {d : Decoder α} {store : α → σ → σ} {part : σ → Option α}
    {P : α → Prop} (hd : Gives d depth P) (hstore : ∀ a s, part (store a s) = some a) :
    Keeps depth (PartHas part P) (.of name d store) := by
  refine keeps_of hd fun a s ha _ b hb ↦ ?_
  rw [hstore] at hb
  exact Option.some.inj hb ▸ ha

/-- A field that is stored elsewhere. -/
theorem keeps_other {name : String} {d : Decoder α} {store : α → σ → σ} {part : σ → Option β}
    {P : β → Prop} (hstore : ∀ a s, part (store a s) = part s) :
    Keeps depth (PartHas part P) (.of name d store) :=
  keeps_of (gives_true d) fun a s _ hs b hb ↦ hs b (hstore a s ▸ hb)

theorem PartHas.getD {part : σ → Option α} {P : α → Prop} {s : σ} (h : PartHas part P s)
    {default : α} (hdefault : P default) : P ((part s).getD default) := by
  cases hpart : part s with
  | none => exact hdefault
  | some a => exact h a hpart

theorem gives_fieldsByName {fields : List (Field σ)} {strict : Bool} {I : σ → Prop}
    (hfields : ∀ field ∈ fields, Keeps depth I field) {ms : List (Quote × Fragment)}
    (hms : BoundedMembers ms) {seen : List String} {s t : σ} (hs : I s)
    (h : fieldsByName fields strict depth seen s ms = .ok t) : I t := by
  induction ms generalizing seen s with
  | nil =>
    cases h
    exact hs
  | cons m ms ih =>
    obtain ⟨key, f⟩ := m
    obtain ⟨name, -, h⟩ := bind_eq_ok.mp h
    split at h
    · next field hfield =>
      split_ifs at h
      obtain ⟨store, hstore, h⟩ := bind_eq_ok.mp h
      exact ih hms.2 (hfields field (List.mem_of_find?_eq_some hfield) hms.1 hstore s hs) h
    · split_ifs at h
      obtain ⟨_, -, h⟩ := bind_eq_ok.mp h
      exact ih hms.2 hs h

theorem gives_fieldsInOrder {fields : List (Field σ)} {stop : Option Problem} {I : σ → Prop}
    (hfields : ∀ field ∈ fields, Keeps depth I field) {fs : List Fragment}
    (hfs : BoundedItems fs) {s t : σ} (hs : I s)
    (h : fieldsInOrder depth stop fields s fs = .ok t) : I t := by
  induction fields generalizing fs s with
  | nil =>
    cases fs with
    | nil =>
      obtain ⟨_, -, h⟩ := bind_eq_ok.mp h
      cases h
      exact hs
    | cons f fs => exact absurd h nofun
  | cons field fields ih =>
    obtain ⟨hfield, hrest⟩ := List.forall_mem_cons.mp hfields
    cases fs with
    | nil =>
      obtain ⟨_, -, h⟩ := bind_eq_ok.mp h
      cases h
      exact hs
    | cons f fs =>
      obtain ⟨store, hstore, h⟩ := bind_eq_ok.mp h
      exact ih hrest hfs.2 (hfield hfs.1 hstore s hs) h

/-- What the fields of a record keep is true of the fields that a record is made from, whether the
fields were given by name or in their order. -/
theorem gives_record {fields : List (Field σ)} {strict : Bool} {start : σ}
    {finish : σ → Option α} {I : σ → Prop} {P : α → Prop} (hstart : I start)
    (hfields : ∀ field ∈ fields, Keeps depth I field)
    (hfinish : ∀ {s a}, I s → finish s = some a → P a) :
    Gives (record fields strict start finish) (depth + 1) P := by
  have hmake {s : σ} {a : α} (hs : I s)
      (h : (finish s).elim (.error .mistyped) .ok = (.ok a : Except Problem α)) : P a := by
    cases hmade : finish s with
    | none =>
      rw [hmade] at h
      exact absurd h nofun
    | some b =>
      rw [hmade] at h
      cases h
      exact hfinish hs hmade
  intro f a hf hread
  unfold record at hread
  split at hread
  · exact absurd hread nofun
  · exact absurd hread nofun
  · next hdepth =>
    cases hdepth
    obtain ⟨s, hs, hread⟩ := bind_eq_ok.mp hread
    obtain ⟨_, -, hread⟩ := bind_eq_ok.mp hread
    exact hmake (gives_fieldsByName hfields hf hstart hs) hread
  · next hdepth =>
    cases hdepth
    obtain ⟨s, hs, hread⟩ := bind_eq_ok.mp hread
    exact hmake (gives_fieldsInOrder hfields hf hstart hs) hread
  · exact absurd hread nofun

theorem gives_document {d : Decoder α} {P : α → Prop} (h : Gives d maxDepth P) {gs : List Glyph}
    {a : α} (hread : document d gs = .ok a) : P a := by
  have hbounded := bounded_ofGlyphs gs
  unfold document at hread
  generalize Fragment.ofGlyphs gs = front at hread hbounded
  obtain ⟨b, hb, hread⟩ := bind_eq_ok.mp hread
  split at hread
  · exact absurd hread nofun
  · cases hread
    exact h hbounded hb

/-! ### What is read back -/

theorem string_ofValue (depth : Nat) (s : String) :
    string depth (ofValue (.string s)) = .ok s := rfl

theorem bool_ofValue (depth : Nat) (b : Bool) : bool depth (ofValue (.bool b)) = .ok b := rfl

theorem int_ofValue {narrow : Int → Option α} {i : Int} {a : α} (h : narrow i = some a)
    (depth : Nat) : int narrow depth (ofValue (.number (.int i))) = .ok a := by
  unfold int
  rw [ofValue]
  dsimp only
  rw [h]

theorem uint32_ofValue (depth : Nat) (n : UInt32) :
    uint32 depth (ofValue (ofNat n.toNat)) = .ok n := by
  have hfits : (0 : Int) ≤ n.toNat ∧ (n.toNat : Int) < UInt32.size :=
    ⟨Int.natCast_nonneg _, Int.ofNat_lt.mpr n.toNat_lt_size⟩
  refine int_ofValue ?_ depth
  rw [if_pos hfits, Int.toNat_natCast, UInt32.ofNat_toNat]

theorem int32_ofValue (depth : Nat) (n : Int32) :
    int32 depth (ofValue (.number (.int n.toInt))) = .ok n := by
  have hfits : Int32.minValue.toInt ≤ n.toInt ∧ n.toInt ≤ Int32.maxValue.toInt :=
    ⟨n.minValue_le_toInt, n.toInt_le⟩
  refine int_ofValue ?_ depth
  rw [if_pos hfits, Int32.ofInt_toInt]

theorem written_ofValue {parse : String → Option α} {s : String} {a : α} (h : parse s = some a)
    (depth : Nat) : written parse depth (ofValue (.string s)) = .ok a := by
  unfold written
  refine bind_eq_ok.mpr ⟨s, string_ofValue depth s, ?_⟩
  rw [h]
  rfl

theorem optional_ofValue {d : Decoder α} {e : α → Json} {o : Option α}
    (h : ∀ a ∈ o, e a ≠ .null ∧ d depth (ofValue (e a)) = .ok a) :
    optional d depth (ofValue (ofOption e o)) = .ok o := by
  cases o with
  | none => rfl
  | some a =>
    obtain ⟨hnull, hread⟩ := h a rfl
    unfold optional
    split
    · next hword =>
      -- no value but null is read as this word
      rw [ofOption] at hword
      cases hvalue : e a <;> simp [hvalue, ofValue] at hword hnull
    · rw [ofOption, hread]
      rfl

theorem list_ofValue {d : Decoder α} {e : α → Json} {as : List α}
    (h : ∀ a ∈ as, d depth (ofValue (e a)) = .ok a) :
    list d (depth + 1) (ofValue (.array (as.map e))) = .ok as := by
  have hitems : items d depth (ofItems (as.map e)) = .ok as := by
    induction as with
    | nil => rfl
    | cons a as ih =>
      obtain ⟨ha, has⟩ := List.forall_mem_cons.mp h
      rw [List.map_cons, ofItems, items, ha, ih has]
      rfl
  rw [ofValue, list, hitems]
  rfl

/-- Whether members give the fields of a record in their order, bringing it from one state to
another. -/
def Filled (depth : Nat) : List (Field σ) → List (String × Json) → σ → σ → Prop
  | [], [], s, t => s = t
  | field :: fields, (key, v) :: ms, s, t =>
    field.name = key ∧
      ∃ store, field.read depth (ofValue v) = .ok store ∧ Filled depth fields ms (store s) t
  | [], _ :: _, _, _ | _ :: _, [], _, _ => False

theorem filled_of {name : String} {d : Decoder α} {store : α → σ → σ} {fields : List (Field σ)}
    {v : Json} {a : α} {ms : List (String × Json)} {s t : σ} (hread : d depth (ofValue v) = .ok a)
    (hrest : Filled depth fields ms (store a s) t) :
    Filled depth (.of name d store :: fields) ((name, v) :: ms) s t :=
  ⟨rfl, store a, map_eq_ok.mpr ⟨a, hread, rfl⟩, hrest⟩

theorem fieldsByName_ofMembers {before fields : List (Field σ)} {strict : Bool} {seen : List String}
    {ms : List (String × Json)} {s t : σ} (hnames : ((before ++ fields).map Field.name).Nodup)
    (hseen : ∀ name ∈ seen, name ∈ before.map Field.name) (h : Filled depth fields ms s t) :
    fieldsByName (before ++ fields) strict depth seen s (ofMembers ms) = .ok t := by
  induction fields generalizing before seen ms s with
  | nil =>
    cases ms with
    | nil => exact congrArg Except.ok h
    | cons m ms => exact False.elim h
  | cons field fields ih =>
    obtain - | ⟨⟨key, v⟩, ms⟩ := ms
    · exact False.elim h
    obtain ⟨rfl, store, hread, hrest⟩ := h
    -- the field is the only one of its name, so it is found and has not been given before
    have hnew : field.name ∉ before.map Field.name := by
      rw [List.map_append, List.map_cons] at hnames
      exact fun hmem ↦ List.disjoint_of_nodup_append hnames hmem List.mem_cons_self
    have hfind : (before ++ field :: fields).find? (·.name == field.name) = some field := by
      have hbefore : before.find? (·.name == field.name) = none :=
        List.find?_eq_none.mpr fun other hother heq ↦
          hnew (List.mem_map.mpr ⟨other, hother, beq_iff_eq.mp heq⟩)
      rw [List.find?_append, hbefore, Option.none_or]
      exact List.find?_cons_of_pos (beq_self_eq_true field.name)
    have hnames' : ((before ++ [field] ++ fields).map Field.name).Nodup := by simpa using hnames
    have hseen' : ∀ name ∈ field.name :: seen, name ∈ (before ++ [field]).map Field.name := by
      intro name hname
      rw [List.map_append]
      rcases List.mem_cons.mp hname with rfl | hname
      · exact List.mem_append_right _ List.mem_cons_self
      · exact List.mem_append_left _ (hseen name hname)
    have htail := ih hnames' hseen' hrest
    rw [List.append_assoc, List.singleton_append] at htail
    rw [ofMembers, fieldsByName]
    refine bind_eq_ok.mpr ⟨field.name, rfl, ?_⟩
    rw [hfind]
    dsimp only
    rw [if_neg fun hmem ↦ hnew (hseen _ hmem)]
    exact bind_eq_ok.mpr ⟨store, hread, htail⟩

/-- A record is read back from the object that gives its fields in their order. -/
theorem record_ofValue {fields : List (Field σ)} {strict : Bool} {start s : σ}
    {finish : σ → Option α} {ms : List (String × Json)} {a : α}
    (hnames : (fields.map Field.name).Nodup) (hfilled : Filled depth fields ms start s)
    (hfinish : finish s = some a) :
    record fields strict start finish (depth + 1) (ofValue (.object ms)) = .ok a := by
  have hfields : fieldsByName ([] ++ fields) strict depth [] start (ofMembers ms) = .ok s :=
    fieldsByName_ofMembers hnames nofun hfilled
  rw [List.nil_append] at hfields
  rw [ofValue, record, hfields]
  refine bind_eq_ok.mpr ⟨s, rfl, ?_⟩
  rw [hfinish]
  rfl

/-- What is read back from the fragment of a value is read back from its printed forms, whatever
white space follows. -/
theorem document_spaced {d : Decoder α} {v : Json} {a : α} (g : Spacing)
    (hv : v.allNumbers Number.isExact = true) (hread : d maxDepth (ofValue v) = .ok a)
    {tail : List Glyph} (hends : Ends tail) (htail : token tail = []) :
    document d ((spaced g 0 v).map some ++ tail) = .ok a := by
  unfold document
  rw [ofGlyphs_spaced g hv hends]
  dsimp only
  rw [hread, Option.map_some, htail]
  rfl

end VersionedContent.Json.Decoder
