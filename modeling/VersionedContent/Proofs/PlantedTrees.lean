import VersionedContent.Proofs.BranchReplacement
import VersionedContent.Proofs.BranchWalks
import VersionedContent.Proofs.FullLoads

/-!
# Trees that have the shape of some kits

Kits with distinct ids, each at the top or at a level below that of the kit of its parent, make a
forest. A load gives a tree the shape of such kits (`LiveContent.Sound.planted_load`): a node for
each of them, under the parent of the kit. Replacing a branch of the tree by the same branch of the
kits, moving a leaf and moving it back, and storing a kit with another payload all leave every node
under the parent that it had (`LiveContent.Planted.linkOf_setBranch`,
`LiveContent.Planted.linkOf_set_set`, `LiveContent.Planted.linkOf_set`).

What is below a node in the tree is what is below its id in the kits, so no cycle check can fail:
levels fall on the way up.
-/

set_option autoImplicit false

namespace VersionedContent

open Churn Relation

/-! ### Forests of kits -/

/-- Kits with distinct ids and with payloads, each at the top or at a level below that of the kit of
its parent. -/
structure ContentKit.Forest (ks : List ContentKit) : Prop where
  nodup_ids : (ks.map ContentKit.id).Nodup
  payload : ∀ k ∈ ks, k.isEmpty = false
  parent : ∀ k ∈ ks, ∀ p ∈ k.parentId, ∃ q ∈ ks, q.id = p ∧ q.level < k.level

namespace ContentKit.Forest

variable {ks : List ContentKit} {k d : ContentKit} {p root : ContentId}

theorem eq_of_id_eq (h : Forest ks) (hk : k ∈ ks) (hd : d ∈ ks) (heq : k.id = d.id) : k = d :=
  List.inj_on_of_nodup_map h.nodup_ids hk hd heq

/-- What is at or below a kit is not at a level above it. -/
theorem level_le (h : Forest ks) (hk : k ∈ ks) (hd : d ∈ ks) (hbelow : AtOrBelow ks k.id d.id) :
    d.level ≤ k.level := by
  generalize hid : k.id = id at hbelow
  induction hbelow using ReflTransGen.head_induction_on generalizing k with
  | refl => exact h.eq_of_id_eq hk hd hid ▸ UInt32.le_refl _
  | head hparent _ ih =>
    obtain ⟨k', hk', hid', hp⟩ := hparent
    obtain rfl := h.eq_of_id_eq hk hk' (hid.trans hid'.symm)
    obtain ⟨q, hq, hqid, hlt⟩ := h.parent k hk _ hp
    exact UInt32.le_trans (ih hq hqid) (UInt32.le_of_lt hlt)

/-- The parent of a kit is not below it. -/
theorem not_atOrBelow (h : Forest ks) (hk : k ∈ ks) (hp : k.parentId = some p) :
    ¬ AtOrBelow ks p k.id := by
  obtain ⟨q, hq, rfl, hlt⟩ := h.parent k hk p hp
  exact fun hbelow ↦ UInt32.not_lt.mpr (h.level_le hq hk hbelow) hlt

theorem not_circled (h : Forest ks) (root : ContentId) : ¬ Circled ks root := by
  rintro ⟨id, -, hcircle⟩
  obtain ⟨p, ⟨k, hk, rfl, hp⟩, hbelow⟩ := TransGen.head'_iff.mp hcircle
  exact h.not_atOrBelow hk hp hbelow

theorem mem_branchOf_iff (h : Forest ks) :
    k ∈ branchOf ks root ↔ k ∈ ks ∧ AtOrBelow ks k.id root :=
  mem_branchOf (h.not_circled root)

theorem nodup_ids_branchOf (h : Forest ks) (root : ContentId) :
    ((branchOf ks root).map ContentKit.id).Nodup := by
  refine (nodup_branchOf h.nodup_ids (h.not_circled root)).map_on fun k hk d hd heq ↦ ?_
  exact h.eq_of_id_eq (h.mem_branchOf_iff.mp hk).1 (h.mem_branchOf_iff.mp hd).1 heq

end ContentKit.Forest

/-! ### Trees of their shape -/

/-- The nodes are those of some kits, each under the parent of its kit. -/
def ContentView.HasShapeOf (v : ContentView) (ks : List ContentKit) : Prop :=
  ∀ id parent, v.linkOf id = some parent ↔ ∃ k ∈ ks, k.id = id ∧ k.parentId = parent

/-- A state whose tree has the shape of some kits, and in which their types are defined. -/
structure LiveContent.Planted (s : LiveContent) (ks : List ContentKit) : Prop where
  sound : s.Sound
  shape : s.view.HasShapeOf ks
  typed : ∀ k ∈ ks, ∃ type, s.view.type? k.contentTypeId = some type

/-- A kit that no check keeps from being applied. -/
structure Edit.Suits (v : ContentView) (k : ContentKit) : Prop where
  payload : k.isEmpty = false
  typed : ∃ type, v.type? k.contentTypeId = some type
  parent : ∀ p ∈ k.parentId, (∃ n, v.node? p = some n) ∧ ¬v.Below k.id p

namespace LiveContent

open ContentView Edit

variable {s t : LiveContent} {ks : List ContentKit} {k leaf folder : ContentKit}

/-- Applying a kit that suits changes the parent of its node only. -/
theorem linkOf_set_of_suits (h : Suits s.view k) :
    (Edit.set s k).1.view.linkOf = Function.update s.view.linkOf k.id (some k.parentId) := by
  obtain ⟨type, hvet⟩ : ∃ type, vet s k = .ok type := by
    cases hparent : k.parentId with
    | none =>
      obtain ⟨type, htype⟩ := h.typed
      exact ⟨type, by simp [vet, h.payload, htype, hparent]⟩
    | some p =>
      obtain ⟨hexists, hnot⟩ := h.parent p hparent
      obtain ⟨type, hvet⟩ := vet_of_fitsUnder ⟨h.payload, h.typed, hparent, hexists⟩
      have hself : p ≠ k.id := fun heq ↦ hnot (heq ▸ below_self)
      exact ⟨type, by rw [hvet, if_neg hself, if_neg (mt (isAncestor_iff s k.id p).mp hnot)]⟩
  simp only [Edit.set, hvet]
  exact linkOf_place s k type

/-- Removing a branch that is gone changes nothing. -/
theorem setBranch_clear (h : s.view.Linked) (root : ContentId) (ks : List ContentKit) :
    setBranch (clear s root).1 root ks = setBranch s root ks := by
  have hgone : (clear s root).1.view.node? root = none := h.node?_removeSubtree_of_below below_self
  have hsame : (clear (clear s root).1 root).1 = (clear s root).1 := by
    rw [show (clear (clear s root).1 root).1 = (removeSubtree (clear s root).1 root).1 from rfl,
      removeSubtree, node?_eq, hgone]
  rw [setBranch, setBranch, hsame]

/-! ### A load -/

/-- The types of a load are defined after it. -/
theorem Sound.exists_type?_setAllTypes (h : s.Sound) {types : List ContentType} {id : ContentTypeId}
    (hnodup : (types.map ContentType.id).Nodup) (htyped : ∃ type ∈ types, type.id = id) :
    ∃ type, (Retype.setAllTypes s types).1.view.type? id = some type := by
  have hrefreshed : (((WriterCall.setAllTypes types).refreshedTypes s).map ContentType.id).Nodup :=
    hnodup
  obtain ⟨type, hmem, rfl⟩ := htyped
  have hintended : type ∈ (WriterCall.setAllTypes types).intendedTypes s :=
    List.mem_append_right _ hmem
  exact ⟨type, (h.indexed.type?_run_iff hrefreshed).mpr hintended⟩

/-- A load of a forest whose types are defined applies every kit, and leaves their nodes and no
others. -/
theorem Sound.grown_load (h : s.Sound) (hks : ContentKit.Forest ks)
    (htyped : ∀ k ∈ ks, ∃ type, s.view.type? k.contentTypeId = some type) :
    (Edit.emptied s).Grown (ks.mergeSort levelLE) (Edit.setAll s ks).1 ∧
      (Edit.setAll s ks).2 = ⟨ks.length, 0, 0, 0⟩ := by
  have hpicks : Picks (Edit.emptied s).view (fun _ ↦ true) (ks.mergeSort levelLE) := by
    intro done k rest hsorted
    have hk : k ∈ ks := List.mem_mergeSort.mp (hsorted ▸ List.mem_append_cons_self)
    refine iff_of_true rfl ⟨hks.payload k hk, htyped k hk, fun p hp ↦ Or.inr ?_⟩
    obtain ⟨q, hq, rfl, hlt⟩ := hks.parent k hk p hp
    exact ⟨q, List.mem_filter.mpr ⟨mem_of_level_lt hsorted hq hlt, rfl⟩, rfl⟩
  obtain ⟨hgrown, hreport⟩ := h.emptied.grown_setOrdered hpicks hks.nodup_ids
    (fun k _ ↦ node?_emptied s k.id) fun k hk hself ↦ hks.not_atOrBelow hk hself .refl
  rw [List.filter_true] at hgrown
  exact ⟨hgrown, hreport.trans (LoadReport.on_all htyped)⟩

/-- In a tree that has the nodes of some kits and no others there is a kit for every node. -/
theorem Grown.exists_kit (h : (Edit.emptied s).Grown (ks.mergeSort levelLE) t) {id : ContentId}
    {n : ContentNode} (hn : t.view.node? id = some n) : ∃ k ∈ ks, k.id = id := by
  obtain ⟨m, hm⟩ | ⟨k, hk, hid⟩ := h.exists_node?_iff.mp ⟨n, hn⟩
  · rw [node?_emptied] at hm
    contradiction
  · exact ⟨k, List.mem_mergeSort.mp hk, hid⟩

/-- A load of a forest and of its types leaves a tree of its shape, whatever there was before. -/
theorem Sound.planted_load (h : s.Sound) {types : List ContentType} (hks : ContentKit.Forest ks)
    (hnodup : (types.map ContentType.id).Nodup)
    (htyped : ∀ k ∈ ks, ∃ type ∈ types, type.id = k.contentTypeId) :
    (Edit.setAll (Retype.setAllTypes s types).1 ks).1.Planted ks := by
  have hstored : (Retype.setAllTypes s types).1.Sound := sound_invariant.run h (.setAllTypes types)
  have htypes : ∀ k ∈ ks, ∃ type,
      (Retype.setAllTypes s types).1.view.type? k.contentTypeId = some type :=
    fun k hk ↦ h.exists_type?_setAllTypes hnodup (htyped k hk)
  obtain ⟨hgrown, -⟩ := hstored.grown_load hks htypes
  refine ⟨sound_invariant.run hstored (.setAll ks), fun id parent ↦ ?_, hgrown.type?_eq ▸ htypes⟩
  have hnode : ∀ k ∈ ks, (Edit.setAll (Retype.setAllTypes s types).1 ks).1.view.linkOf k.id =
      some k.parentId := by
    intro k hk
    obtain ⟨type, -, hn⟩ := hgrown.node?_new k (List.mem_mergeSort.mpr hk)
    rw [linkOf, hn]
    rfl
  constructor
  · intro hlink
    obtain ⟨n, hn⟩ := exists_node?_of_linkOf hlink
    obtain ⟨k, hk, rfl⟩ := hgrown.exists_kit hn
    exact ⟨k, hk, rfl, Option.some.inj ((hnode k hk).symm.trans hlink)⟩
  · rintro ⟨k, hk, rfl, rfl⟩
    exact hnode k hk

namespace Planted

theorem linkOf_eq (h : s.Planted ks) (hk : k ∈ ks) : s.view.linkOf k.id = some k.parentId :=
  (h.shape _ _).mpr ⟨k, hk, rfl, rfl⟩

theorem exists_node? (h : s.Planted ks) (hk : k ∈ ks) : ∃ n, s.view.node? k.id = some n :=
  exists_node?_of_linkOf (h.linkOf_eq hk)

/-- The same is below a node in the tree and below its id in the kits. -/
theorem below_iff (h : s.Planted ks) {top id : ContentId} :
    s.view.Below top id ↔ AtOrBelow ks id top := by
  constructor
  · rintro ⟨steps, hsteps⟩
    induction steps generalizing top with
    | zero => exact Option.some.inj hsteps ▸ .refl
    | succ steps ih =>
      obtain ⟨c, hc, hparent⟩ := Option.bind_eq_some_iff.mp hsteps
      exact (ih hc).tail ((h.shape c _).mp (parentId_eq_some_iff.mp hparent))
  · intro hbelow
    induction hbelow using ReflTransGen.head_induction_on with
    | refl => exact below_self
    | head hparent _ ih => exact ih.of_parent ((h.shape _ _).mpr hparent)

/-- What leaves the types and the parents of nodes as they are leaves the shape as it is. -/
theorem of_linkOf_eq (h : s.Planted ks) (hsound : t.Sound) (hlinks : t.view.linkOf = s.view.linkOf)
    (htables : t.typeTables = s.typeTables) : t.Planted ks :=
  ⟨hsound, fun id parent ↦ hlinks ▸ h.shape id parent, type?_of_typeTables htables ▸ h.typed⟩

/-- The kit of a node may be applied again. -/
theorem suits (h : s.Planted ks) (hks : ContentKit.Forest ks) (hk : k ∈ ks) : Suits s.view k where
  payload := hks.payload k hk
  typed := h.typed k hk
  parent p hp := by
    obtain ⟨q, hq, rfl, -⟩ := hks.parent k hk p hp
    exact ⟨h.exists_node? hq, mt h.below_iff.mp (hks.not_atOrBelow hk hp)⟩

/-! ### Another payload -/

/-- Storing a kit with another payload leaves its node under its parent. -/
theorem linkOf_set (h : s.Planted ks) (hks : ContentKit.Forest ks) (hk : k ∈ ks)
    (data : ContentData) :
    (Edit.set s (k.withPublished data)).1.view.linkOf = s.view.linkOf := by
  have hsuits : Suits s.view (k.withPublished data) :=
    ⟨by simp [ContentKit.isEmpty, ContentKit.withPublished], (h.suits hks hk).typed,
      (h.suits hks hk).parent⟩
  rw [linkOf_set_of_suits hsuits]
  exact Function.update_eq_self_iff.mpr (h.linkOf_eq hk).symm

/-! ### A leaf that is moved -/

/-- A node that is no kit's parent can be moved below another one and back. -/
theorem linkOf_set_set (h : s.Planted ks) (hks : ContentKit.Forest ks) (hleaf : leaf ∈ ks)
    (hfolder : folder ∈ ks) (hchildless : ∀ d ∈ ks, d.parentId ≠ some leaf.id)
    (hne : folder.id ≠ leaf.id) :
    (Edit.set (Edit.set s (leaf.under folder)).1 leaf).1.view.linkOf = s.view.linkOf := by
  have hmoves : Suits s.view (leaf.under folder) := by
    refine ⟨hks.payload leaf hleaf, h.typed leaf hleaf, fun p hp ↦ ?_⟩
    obtain rfl : folder.id = p := Option.some.inj hp
    refine ⟨h.exists_node? hfolder, fun hbelow ↦ ?_⟩
    obtain heq | ⟨c, -, d, hd, -, hparent⟩ := (h.below_iff.mp hbelow).cases_tail
    · exact hne heq.symm
    · exact hchildless d hd hparent
  have hlinks := linkOf_set_of_suits hmoves
  have hother : ∀ id, id ≠ leaf.id →
      (Edit.set s (leaf.under folder)).1.view.linkOf id = s.view.linkOf id := fun id hid ↦ by
    rw [hlinks]
    exact Function.update_of_ne hid _ _
  have hreturns : Suits (Edit.set s (leaf.under folder)).1.view leaf := by
    refine ⟨hks.payload leaf hleaf, ?_, fun p hp ↦ ?_⟩
    · rw [type?_of_typeTables (typeTables_set s _)]
      exact h.typed leaf hleaf
    obtain ⟨q, hq, rfl, -⟩ := hks.parent leaf hleaf p hp
    have hself : q.id ≠ leaf.id := fun heq ↦ hks.not_atOrBelow hleaf hp (heq ▸ .refl)
    refine ⟨exists_node?_of_linkOf ((hother q.id hself).trans (h.linkOf_eq hq)), ?_⟩
    -- after the move there is still nothing below the leaf
    rintro ⟨_ | steps, hsteps⟩
    · exact hself (Option.some.inj hsteps)
    · obtain ⟨c, -, hc⟩ := Option.bind_eq_some_iff.mp hsteps
      have hlink := parentId_eq_some_iff.mp hc
      by_cases heq : c = leaf.id
      · rw [heq, hlinks] at hlink
        exact hne (by simpa [ContentKit.under] using hlink)
      · rw [hother c heq] at hlink
        obtain ⟨d, hd, -, hparent⟩ := (h.shape _ _).mp hlink
        exact hchildless d hd hparent
  rw [linkOf_set_of_suits hreturns, hlinks]
  refine (Function.update_idem _ _ _).trans ?_
  exact Function.update_eq_self_iff.mpr (h.linkOf_eq hleaf).symm

/-! ### A branch that is replanted -/

/-- The kits of a branch make a branch in place of that of their root. -/
theorem makesBranch (h : s.Planted ks) (hks : ContentKit.Forest ks) (hk : k ∈ ks) :
    MakesBranch s.view k.id (branchOf ks k.id) k where
  nodup_ids := hks.nodup_ids_branchOf k.id
  free d hd := Or.inr (h.below_iff.mpr (hks.mem_branchOf_iff.mp hd).2)
  payload d hd := hks.payload d (hks.mem_branchOf_iff.mp hd).1
  typed d hd := h.typed d (hks.mem_branchOf_iff.mp hd).1
  top_mem := hks.mem_branchOf_iff.mpr ⟨hk, .refl⟩
  top_id := rfl
  top_parent := (h.suits hks hk).parent
  parent d hd hne := by
    obtain ⟨hd, hbelow⟩ := hks.mem_branchOf_iff.mp hd
    obtain heq | ⟨p, ⟨d', hd', hid, hp⟩, hup⟩ := hbelow.cases_head
    · exact absurd (hks.eq_of_id_eq hd hk heq) hne
    · obtain rfl := hks.eq_of_id_eq hd' hd hid
      obtain ⟨q, hq, rfl, hlt⟩ := hks.parent d' hd p hp
      exact ⟨q, hks.mem_branchOf_iff.mpr ⟨hq, hup⟩, hp, hlt⟩

/-- Replacing a branch by the same branch of the kits leaves every node under its parent. -/
theorem linkOf_setBranch (h : s.Planted ks) (hks : ContentKit.Forest ks) (hk : k ∈ ks) :
    (setBranch s k.id (branchOf ks k.id)).1.view.linkOf = s.view.linkOf := by
  have hreplaced := h.sound.replaced_setBranch (h.makesBranch hks hk)
  funext id
  by_cases hkit : ∃ d ∈ branchOf ks k.id, d.id = id
  · obtain ⟨d, hd, rfl⟩ := hkit
    obtain ⟨type, -, hnode⟩ := hreplaced.node?_kit d hd
    rw [h.linkOf_eq (hks.mem_branchOf_iff.mp hd).1, linkOf, hnode]
    rfl
  · have hnone : ∀ d ∈ branchOf ks k.id, d.id ≠ id := fun d hd heq ↦ hkit ⟨d, hd, heq⟩
    cases hn : s.view.node? id with
    | none => rw [linkOf, linkOf, hreplaced.node?_none id hn hnone, hn]
    | some n =>
      have hnot : ¬s.view.Below k.id id := fun hbelow ↦ by
        have hlink : s.view.linkOf id = some n.parentId := by rw [linkOf, hn, Option.map_some]
        obtain ⟨d, hd, rfl, -⟩ := (h.shape _ _).mp hlink
        exact hnone d (hks.mem_branchOf_iff.mpr ⟨hd, h.below_iff.mp hbelow⟩) rfl
      rw [linkOf, linkOf, hreplaced.node?_outside id n hn hnot, hn]
      rfl

end Planted

end LiveContent

end VersionedContent
