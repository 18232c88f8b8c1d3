import VersionedContent.Proofs.Removals

/-!
# What the removal of content types takes along

Removing content types removes exactly the nodes that are of one of these types or below such a node
(`ContentView.UnderType`), wherever nodes of one type stand below those of another, and counts every
node and every definition once. So it does not matter in which order the types are listed, nor how
often, nor whether all of them are defined (`RecordedStore.Reachable.typesRemoved`).
-/

set_option autoImplicit false

namespace VersionedContent

/-- The keys that are gone are those that the smaller table lacks. -/
theorem size_add_length_gone {κ α β : Type} [Ord κ] [Std.TransOrd κ] [Std.LawfulEqOrd κ]
    {before : Std.ExtTreeMap κ α} {after : Std.ExtTreeMap κ β} {gone : κ → Prop}
    [DecidablePred gone] (h : ∀ key : κ, key ∈ after ↔ key ∈ before ∧ ¬gone key) :
    after.size + (before.keys.filter (gone ·)).length = before.size := by
  have hkept : after.keys.Perm (before.keys.filter fun key ↦ !decide (gone key)) :=
    (List.perm_ext_iff_of_nodup Std.ExtTreeMap.nodup_keys
      (Std.ExtTreeMap.nodup_keys.filter _)).mpr fun key ↦ by
        rw [Std.ExtTreeMap.mem_keys, h, List.mem_filter, Std.ExtTreeMap.mem_keys, Bool.not_eq_true',
          decide_eq_false_iff_not]
  rw [← Std.ExtTreeMap.length_keys, hkept.length_eq, ← Std.ExtTreeMap.length_keys, Nat.add_comm]
  exact (List.length_eq_length_filter_add _).symm

namespace ContentView

variable {v : ContentView} {types : List ContentTypeId} {id : ContentId}

/-- A node or one of its ancestors is of one of some types. -/
def UnderType (v : ContentView) (types : List ContentTypeId) (id : ContentId) : Prop :=
  ∃ top, v.Below top id ∧ ∃ t ∈ types, v.typeOf top = some t

theorem Keeps.mem_nodes_iff {w : ContentView} {kept : ContentId → Bool} (h : v.Keeps w kept) :
    id ∈ w.nodes ↔ id ∈ v.nodes ∧ kept id = true := by
  rw [Std.ExtTreeMap.mem_iff_isSome_getElem?, show w.nodes[id]? = _ from h.node?_eq id,
    Std.ExtTreeMap.mem_iff_isSome_getElem?]
  split_ifs with hkept
  · rw [Option.isSome_map]
    exact (and_iff_left hkept).symm
  · simp [hkept]

theorem mem_nodes_of_typeOf {t : ContentTypeId} (h : v.typeOf id = some t) : id ∈ v.nodes := by
  obtain ⟨d, hd, -⟩ := Option.map_eq_some_iff.mp h
  obtain ⟨n, hn, -⟩ := Option.map_eq_some_iff.mp hd
  exact Std.ExtTreeMap.mem_iff_isSome_getElem?.mpr (Option.isSome_of_eq_some hn)

instance (v : ContentView) (types : List ContentTypeId) : DecidablePred (v.UnderType types) :=
  fun id ↦ decidable_of_iff
    (∃ top ∈ v.nodes.keys, v.Below top id ∧ ∃ t ∈ types, v.typeOf top = some t)
    ⟨fun ⟨top, _, h⟩ ↦ ⟨top, h⟩, fun ⟨top, hbelow, t, ht, htype⟩ ↦
      ⟨top, Std.ExtTreeMap.mem_keys.mpr (mem_nodes_of_typeOf htype), hbelow, t, ht, htype⟩⟩

end ContentView

namespace LiveContent

open ContentView

variable {s : LiveContent}

/-- What the removal of some content types makes of a state, with the report on it. -/
structure TypesRemoved (s : LiveContent) (removed : List ContentTypeId) (after : LiveContent)
    (rebuild : TypeRebuild) : Prop where
  /-- A node stays when neither it nor an ancestor is of a removed type, and loses of its children
  those that are. -/
  node?_eq : ∀ id, after.view.node? id =
    if s.view.UnderType removed id then none
    else (s.view.node? id).map fun n ↦
      { n with childIds := n.childIds.filter fun c ↦ ¬s.view.UnderType removed c }
  mem_roots_iff : ∀ id, id ∈ after.view.roots ↔
    id ∈ s.view.roots ∧ ¬s.view.UnderType removed id
  mem_nodesOf_iff : ∀ u id, id ∈ after.index.nodesOf u ↔
    id ∈ s.index.nodesOf u ∧ ¬s.view.UnderType removed id
  type?_eq : ∀ u, after.view.type? u = if u ∈ removed then none else s.view.type? u
  /-- The definitions removed give up their names. -/
  typeNamed?_iff : ∀ handle d, after.view.typeNamed? handle = some d ↔
    (∀ t ∈ removed, s.handleOf t ≠ some handle) ∧ s.view.typeNamed? handle = some d
  removedNodes_eq : rebuild.removedNodes =
    (s.view.nodes.keys.filter (s.view.UnderType removed ·)).length
  removedTypes_eq : rebuild.removedTypes =
    (removed.dedup.filter fun t ↦ (s.view.type? t).isSome).length
  /-- Nothing else is reported. -/
  others_eq : rebuild = { rebuild with
    refreshedTypes := 0, reboundNodes := 0, kits := LoadReport.zero }

/-- The nodes that the index lists under some types are those of these types. -/
theorem Indexed.outside_nodesOf (h : s.Indexed) (types : List ContentTypeId) (id : ContentId) :
    s.view.outside (types.flatMap s.index.nodesOf) id = true ↔ ¬s.view.UnderType types id := by
  simp only [outside_iff, UnderType, List.mem_flatMap, not_exists, not_and]
  constructor
  · intro hall top hbelow t ht htype
    exact hall top ⟨t, ht, (h.lists t top).mpr htype⟩ hbelow
  · rintro hall top ⟨t, ht, hlisted⟩ hbelow
    exact hall top hbelow t ht ((h.lists t top).mp hlisted)

theorem Indexed.keeps_removeTypes_underType (h : s.Indexed) (removed : List ContentTypeId) :
    s.view.Keeps (Retype.removeTypes s removed).1.view
      fun id ↦ ¬s.view.UnderType removed id := by
  have hsame : s.view.outside (removed.flatMap s.index.nodesOf) =
      fun id ↦ decide (¬s.view.UnderType removed id) := by
    funext id
    rw [Bool.eq_iff_iff, h.outside_nodesOf, decide_eq_true_iff]
  exact hsame ▸ h.keeps_removeTypes removed

/-- With no types to store and no kits, a change of types removes types only. -/
theorem updateTypes_removed (s : LiveContent) (removed : List ContentTypeId) :
    Retype.updateTypes s removed [] [] =
      ((Retype.removeTypes s removed).1,
        { removedTypes := (Retype.removeTypes s removed).2.2
          refreshedTypes := 0
          removedNodes := (Retype.removeTypes s removed).2.1
          reboundNodes := 0
          kits := LoadReport.zero }) := by
  simp [Retype.updateTypes, Retype.rebindAll, Edit.setOrdered, Edit.setEach]

/-- The definitions that go are the defined ones among those listed, each counted once. -/
theorem length_filter_types (s : LiveContent) (removed : List ContentTypeId) :
    (s.view.types.keys.filter (· ∈ removed)).length =
      (removed.dedup.filter fun t ↦ (s.view.type? t).isSome).length := by
  refine List.Perm.length_eq ((List.perm_ext_iff_of_nodup
    (Std.ExtTreeMap.nodup_keys.filter _) (removed.nodup_dedup.filter _)).mpr fun t ↦ ?_)
  rw [List.mem_filter, List.mem_filter, Std.ExtTreeMap.mem_keys, List.mem_dedup, decide_eq_true_iff,
    Std.ExtTreeMap.mem_iff_isSome_getElem?]
  exact and_comm

theorem Sound.removed_updateTypes (h : s.Sound) (removed : List ContentTypeId) :
    s.TypesRemoved removed (Retype.updateTypes s removed [] []).1
      (Retype.updateTypes s removed [] []).2 := by
  have hkeeps := h.indexed.keeps_removeTypes_underType removed
  have hindexed := indexed_invariant.removeTypes h.indexed removed
  have htypes := type?_removeTypes s removed
  obtain ⟨hnodesLeft, htypesLeft⟩ := size_removeTypes h.grounded removed
  have hnodesGone : (Retype.removeTypes s removed).1.view.nodes.size +
      (s.view.nodes.keys.filter (s.view.UnderType removed ·)).length = s.view.nodes.size := by
    refine size_add_length_gone fun id ↦ ?_
    rw [hkeeps.mem_nodes_iff, decide_eq_true_iff]
  have htypesGone : (Retype.removeTypes s removed).1.view.types.size +
      (s.view.types.keys.filter (· ∈ removed)).length = s.view.types.size := by
    refine size_add_length_gone fun t ↦ ?_
    rw [Std.ExtTreeMap.mem_iff_isSome_getElem?,
      show (Retype.removeTypes s removed).1.view.types[t]? = _ from htypes t,
      Std.ExtTreeMap.mem_iff_isSome_getElem?]
    split_ifs with hremoved
    · simp [hremoved]
    · exact (and_iff_left hremoved).symm
  rw [length_filter_types] at htypesGone
  rw [updateTypes_removed]
  exact {
    node?_eq := fun id ↦ by
      rw [hkeeps.node?_eq id]
      by_cases hunder : s.view.UnderType removed id <;> simp [hunder, ContentNode.keeping]
    mem_roots_iff := fun id ↦ by rw [hkeeps.mem_roots_iff id, decide_eq_true_iff]
    mem_nodesOf_iff := fun u id ↦ by
      rw [hindexed.lists u, hkeeps.typeOf_eq id, h.indexed.lists u]
      by_cases hunder : s.view.UnderType removed id <;> simp [hunder]
    type?_eq := htypes
    typeNamed?_iff := fun _ _ ↦ typeNamed?_removeTypes_iff s removed
    removedNodes_eq := by lia
    removedTypes_eq := by lia
    others_eq := rfl }

end LiveContent

/-! ### In every state of a run -/

namespace RecordedStore

variable {r : RecordedStore} {kind : ItemKind} {options : StoreOptions}

/-- In every state of a run, and in every state that an operation passes through there, the removal
of any list of content types leaves exactly the nodes that are not of these types and below none of
them. A list in another order leaves the same state and gives the same report. -/
theorem Reachable.typesRemoved (hr : Reachable kind options r) (removed : List ContentTypeId) :
    r.store.live.TypesRemoved removed (r.store.updateTypes removed [] []).1.live
        (r.store.updateTypes removed [] []).2 ∧
      (∀ others, removed.Perm others →
        (r.store.updateTypes others [] []).1.live = (r.store.updateTypes removed [] []).1.live ∧
          (r.store.updateTypes others [] []).2 = (r.store.updateTypes removed [] []).2) ∧
      ∀ l, Edits r.store.live l →
        l.TypesRemoved removed (Retype.updateTypes l removed [] []).1
            (Retype.updateTypes l removed [] []).2 ∧
          ∀ others, removed.Perm others →
            Retype.updateTypes l others [] [] = Retype.updateTypes l removed [] [] := by
  have hsound := (hr.keeps LiveContent.sound_invariant LiveContent.sound_empty).1
  have hplain : ∀ types, (r.store.updateTypes types [] []).1.live =
        (Retype.updateTypes r.store.live types [] []).1 ∧
      (r.store.updateTypes types [] []).2 = (Retype.updateTypes r.store.live types [] []).2 := by
    intro types
    obtain ⟨-, hlive, hanswer, -⟩ :=
      ContentStore.perform_follows hr.faithful.headsLE (.updateTypes types [] [])
    exact ⟨hlive, WriterAnswer.rebuilt.inj hanswer⟩
  refine ⟨?_, fun others hperm ↦ ?_, fun l hedits ↦ ?_⟩
  · rw [(hplain removed).1, (hplain removed).2]
    exact hsound.removed_updateTypes removed
  · rw [(hplain removed).1, (hplain removed).2, (hplain others).1, (hplain others).2,
      hsound.updateTypes_perm hperm]
    exact ⟨rfl, rfl⟩
  · have hsound := LiveContent.sound_invariant.edits hsound hedits
    exact ⟨hsound.removed_updateTypes removed, fun others hperm ↦
      (hsound.updateTypes_perm hperm [] []).symm⟩

/-- Operations one after another, within a section that is open, lead to states of the same runs. -/
theorem Reachable.performEach (hr : Reachable kind options r) (hopen : r.clock.writing = true)
    (calls : List WriterCall) :
    Reachable kind options
      { r with store := calls.foldl (fun s call ↦ (s.perform call).1) r.store } := by
  induction calls generalizing r with
  | nil => exact hr
  | cons call calls ih =>
    have hclock : (r.store.perform call).1.clock = r.clock := (r.store.perform_eq call).2.2.2
    have hstill : (r.store.perform call).1.clock.writing = true := hclock ▸ hopen
    obtain ⟨s, hs, hsteps⟩ := hr
    exact ih ⟨s, hs, hsteps.tail (.perform hopen call)⟩ hstill

/-- A new store with some operations performed in its first section, which is still open. -/
def begunWith (calls : List WriterCall) : RecordedStore :=
  let s : ContentStore := ⟨.content, Engine.new StoreOptions.default, .empty, .empty⟩
  ⟨calls.foldl (fun s call ↦ (s.perform call).1) s.openSection, []⟩

theorem reachable_begunWith (calls : List WriterCall) :
    Reachable .content StoreOptions.default (begunWith calls) := by
  let s : ContentStore := ⟨.content, Engine.new StoreOptions.default, .empty, .empty⟩
  have hopened : Reachable .content StoreOptions.default ⟨s.openSection, []⟩ :=
    ⟨s, rfl, .tail .refl (.openSection rfl)⟩
  exact hopened.performEach rfl calls

/-- The page written with a given id and type at a given place. -/
def pageAt (id : ContentId) (type : ContentTypeId) (parent : Option ContentId) : WriterCall :=
  .set { page with id, contentTypeId := type, parentId := parent }

/-- Three types, a page of the first with one of the second below it and one more of the first below
that, and a page of the third with one of the second below it. -/
def typesNested : RecordedStore :=
  begunWith
    [.setAllTypes [.new ⟨1⟩ "a" .content, .new ⟨2⟩ "b" .content, .new ⟨3⟩ "c" .content],
      pageAt ⟨1⟩ ⟨1⟩ none, pageAt ⟨2⟩ ⟨2⟩ (some ⟨1⟩), pageAt ⟨3⟩ ⟨1⟩ (some ⟨2⟩),
      pageAt ⟨4⟩ ⟨3⟩ none, pageAt ⟨5⟩ ⟨2⟩ (some ⟨4⟩)]

/-- With two types listed, one of them twice, and an undefined one, four of the five pages go; the
page that stays loses its child. -/
theorem Reachable.typesRemoved_typesNested :
    (typesNested.store.updateTypes [⟨2⟩, ⟨1⟩, ⟨2⟩, ⟨9⟩] [] []).2 =
        { removedTypes := 2, refreshedTypes := 0, removedNodes := 4, reboundNodes := 0,
          kits := LoadReport.zero } ∧
      typesNested.store.live.TypesRemoved [⟨2⟩, ⟨1⟩, ⟨2⟩, ⟨9⟩]
        (typesNested.store.updateTypes [⟨2⟩, ⟨1⟩, ⟨2⟩, ⟨9⟩] [] []).1.live
        (typesNested.store.updateTypes [⟨2⟩, ⟨1⟩, ⟨2⟩, ⟨9⟩] [] []).2 ∧
      ((typesNested.store.updateTypes [⟨2⟩, ⟨1⟩, ⟨2⟩, ⟨9⟩] [] []).1.live.view.node? ⟨4⟩).map
        ContentNode.childIds = some [] ∧
      (typesNested.store.updateTypes [⟨9⟩, ⟨2⟩, ⟨1⟩, ⟨2⟩] [] []).1.live =
        (typesNested.store.updateTypes [⟨2⟩, ⟨1⟩, ⟨2⟩, ⟨9⟩] [] []).1.live := by
  have hr : Reachable .content StoreOptions.default typesNested := reachable_begunWith _
  obtain ⟨hremoved, hperm, -⟩ := hr.typesRemoved [⟨2⟩, ⟨1⟩, ⟨2⟩, ⟨9⟩]
  exact ⟨by decide +kernel, hremoved, by decide +kernel, (hperm [⟨9⟩, ⟨2⟩, ⟨1⟩, ⟨2⟩] (by decide)).1⟩

end RecordedStore

end VersionedContent
