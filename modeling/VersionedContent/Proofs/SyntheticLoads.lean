import VersionedContent.Proofs.ChurnRuns
import VersionedContent.Proofs.Outlines
import VersionedContent.Proofs.SyntheticKits

/-!
# Loads of generated trees

A dump whose kits make a forest and whose types are in the dump is loaded without loss: every kit
is applied, and the tree has one node for each of them (`KitDump.Plantable.loaded`). What is counted
among the kits can then be counted in the tree (`ContentView.Mirrors.length_eq_countUnder`), and the
level of a kit that follows from that of its parent is one more than the number of ancestors of its
node.

For the kits of a generated tree this gives the tree that was asked for, whatever the shape is
(`SyntheticTree.dump_complete`).
-/

set_option autoImplicit false

namespace VersionedContent

open ContentKit

/-! ### Trees made of kits -/

namespace ContentView

/-- A tree with a node for each of some kits, which shows what the kit says, and with no other
nodes. -/
structure Mirrors (v : ContentView) (ks : List ContentKit) : Prop where
  grounded : v.Grounded
  node?_kit : ∀ k ∈ ks, ∃ type children, v.node? k.id = some (.ofKit k type children)
  exists_kit : ∀ id n, v.node? id = some n → ∃ k ∈ ks, k.id = id

variable {v : ContentView} {ks : List ContentKit} {k : ContentKit} {n : ContentNode}
variable {nodes : List ContentNode}

theorem nodup_map_id_of_node? (hnodup : nodes.Nodup)
    (hnodes : ∀ n ∈ nodes, v.node? n.id = some n) : (nodes.map ContentNode.id).Nodup :=
  hnodup.map_on fun n hn m hm heq ↦
    Option.some.inj ((hnodes n hn).symm.trans (heq ▸ hnodes m hm))

namespace Mirrors

/-- The node of a kit and the kit of a node. -/
theorem exists_ofKit (h : v.Mirrors ks) (hn : v.node? n.id = some n) :
    ∃ k ∈ ks, ∃ type children, n = .ofKit k type children := by
  obtain ⟨k, hk, hid⟩ := h.exists_kit n.id n hn
  obtain ⟨type, children, hnode⟩ := h.node?_kit k hk
  rw [hid, hn] at hnode
  exact ⟨k, hk, type, children, Option.some.inj hnode⟩

/-- Nodes with a common parent, all of them and each once, are as many as the kits that name it. -/
theorem length_eq_countUnder (h : v.Mirrors ks) (hids : (ks.map ContentKit.id).Nodup)
    {parent : Option ContentId} (hnodup : nodes.Nodup)
    (hmem : ∀ n, n ∈ nodes ↔ v.node? n.id = some n ∧ n.parentId = parent) :
    nodes.length = countUnder ks parent := by
  have hperm : (nodes.map ContentNode.id).Perm
      ((ks.filter fun k ↦ k.parentId == parent).map ContentKit.id) := by
    refine (List.perm_ext_iff_of_nodup
      (nodup_map_id_of_node? hnodup fun n hn ↦ ((hmem n).mp hn).1)
      (hids.sublist (List.filter_sublist.map _))).mpr fun id ↦ ?_
    simp only [List.mem_map, List.mem_filter, beq_iff_eq, hmem]
    constructor
    · rintro ⟨n, ⟨hn, hparent⟩, rfl⟩
      obtain ⟨k, hk, type, children, rfl⟩ := h.exists_ofKit hn
      exact ⟨k, ⟨hk, hparent⟩, rfl⟩
    · rintro ⟨k, ⟨hk, hparent⟩, rfl⟩
      obtain ⟨type, children, hnode⟩ := h.node?_kit k hk
      exact ⟨.ofKit k type children, ⟨hnode, hparent⟩, rfl⟩
  rw [← List.length_map, hperm.length_eq, List.length_map, countUnder, List.count_eq_countP,
    List.countP_map, List.countP_eq_length_filter]
  rfl

theorem length_children (h : v.Mirrors ks) (hids : (ks.map ContentKit.id).Nodup) (id : ContentId) :
    (v.children id).length = countUnder ks (some id) :=
  h.length_eq_countUnder hids
    (nodup_of_pairwise_siblingLT
      (h.grounded.linked.pairwise_siblings (h.grounded.linked.nodup_childIds_getD id)))
    (h.grounded.linked.mem_children id)

theorem length_atRoot (h : v.Mirrors ks) (hids : (ks.map ContentKit.id).Nodup) :
    v.atRoot.length = countUnder ks none :=
  h.length_eq_countUnder hids (nodup_of_pairwise_siblingLT h.grounded.linked.pairwise_atRoot)
    h.grounded.linked.mem_atRoot

theorem length_all (h : v.Mirrors ks) (hids : (ks.map ContentKit.id).Nodup) :
    v.all.length = ks.length := by
  have hperm : (v.all.map ContentNode.id).Perm (ks.map ContentKit.id) := by
    refine (List.perm_ext_iff_of_nodup h.grounded.linked.nodup_map_id_all hids).mpr fun id ↦ ?_
    simp only [List.mem_map, h.grounded.linked.mem_all]
    constructor
    · rintro ⟨n, hn, rfl⟩
      exact h.exists_kit n.id n hn
    · rintro ⟨k, hk, rfl⟩
      obtain ⟨type, children, hnode⟩ := h.node?_kit k hk
      exact ⟨.ofKit k type children, hnode, rfl⟩
  rw [← List.length_map, hperm.length_eq, List.length_map]

theorem linkOf_kit (h : v.Mirrors ks) (hk : k ∈ ks) : v.linkOf k.id = some k.parentId := by
  obtain ⟨type, children, hnode⟩ := h.node?_kit k hk
  rw [linkOf, hnode]
  rfl

/-- Where levels follow from those of parents, they tell how far up the top is. -/
theorem stepsToTop (h : v.Mirrors ks) (hfirst : ParentsFirst ks) (hk : k ∈ ks) :
    ∃ steps, StepsToTop v.linkOf k.id steps ∧ k.level.toNat = steps + 1 := by
  induction hlevel : k.level.toNat using Nat.strongRecOn generalizing k with
  | ind level ih =>
    have hlink := h.linkOf_kit hk
    obtain htop | ⟨q, hq, hunder⟩ := hfirst.standsAtTop_or hk
    · exact ⟨0, .top (htop.parentId_eq ▸ hlink), hlevel ▸ htop.level_eq⟩
    · have hnext := hunder.level_eq
      obtain ⟨steps, hsteps, hq⟩ := ih q.level.toNat (by lia) hq rfl
      exact ⟨steps + 1, .under (hunder.parentId_eq ▸ hlink) hsteps, by lia⟩

theorem length_ancestors (h : v.Mirrors ks) (hfirst : ParentsFirst ks) (hk : k ∈ ks) :
    k.level.toNat = (v.ancestors k.id).length + 1 := by
  obtain ⟨steps, hsteps, hlevel⟩ := h.stepsToTop hfirst hk
  rw [h.grounded.length_ancestors hsteps, hlevel]

end Mirrors

end ContentView

/-! ### A load of a dump -/

namespace KitDump

variable {kind : ItemKind} {options : StoreOptions} {calls : List WriterCall} {s : ContentStore}
variable {d : KitDump}

/-- A load of a dump sets the types and then the kits. -/
theorem applyTo_follows (hs : s.IdleAfter kind options calls) (d : KitDump) :
    (d.applyTo s).1.live = (Edit.setAll (Retype.setAllTypes s.live d.contentTypes).1 d.kits).1 ∧
      (d.applyTo s).2.2 =
        (Edit.setAll (Retype.setAllTypes s.live d.contentTypes).1 d.kits).2 := by
  obtain ⟨hclosed, t, ht, -, rfl⟩ := hs
  let opened := t.store.openSection
  let retyped := (opened.perform (.setAllTypes d.contentTypes)).1
  have hopened := ht.step (.openSection hclosed)
  have hopen : (t.withStore opened).clock.writing = true := Clock.writing_openSection t.clock
  have hheads : opened.history.HeadsLE opened.clock.live := hopened.recorded.faithful.headsLE
  have hheads' : retyped.history.HeadsLE retyped.clock.live :=
    (hopened.step (.perform hopen (.setAllTypes d.contentTypes))).recorded.faithful.headsLE
  obtain ⟨-, htypes, -, -⟩ := ContentStore.perform_follows hheads (.setAllTypes d.contentTypes)
  obtain ⟨-, hlive, hanswer, -⟩ := ContentStore.perform_follows hheads' (.setAll d.kits)
  rw [htypes] at hlive hanswer
  exact ⟨hlive, WriterAnswer.loaded.inj hanswer⟩

/-- What a load leaves if nothing is lost: all kits are applied, and what a snapshot shows then is a
tree made of them. -/
structure Loaded (d : KitDump) (s : ContentStore) (report : LoadReport) : Prop where
  report_eq : report = ⟨d.kits.length, 0, 0, 0⟩
  mirrors : s.live.view.Mirrors d.kits
  shown_eq : s.shown = s.live.view

/-- A dump that can be loaded as a whole is loaded as a whole, whatever the store held before. -/
theorem Plantable.loaded (hd : d.Plantable) (hs : s.IdleAfter kind options calls) :
    d.Loaded (d.applyTo s).1 (d.applyTo s).2.2 := by
  obtain ⟨hlive, hreport⟩ := applyTo_follows hs d
  have hidle := hs.applyTo d
  obtain ⟨-, t, ht, -, rfl⟩ := hs
  have hsound := (ht.recorded.keeps LiveContent.sound_invariant LiveContent.sound_empty).1
  have hretyped : (Retype.setAllTypes t.store.live d.contentTypes).1.Sound :=
    LiveContent.sound_invariant.run hsound (.setAllTypes d.contentTypes)
  obtain ⟨hgrown, hall⟩ := hretyped.grown_load hd.forest fun k hk ↦
    hsound.exists_type?_setAllTypes hd.nodup_types (hd.typed k hk)
  refine ⟨hreport.trans hall, ?_, hidle.shown_eq⟩
  rw [hlive]
  exact {
    grounded := (LiveContent.sound_invariant.run hretyped (.setAll d.kits)).grounded
    node?_kit := fun k hk ↦ by
      obtain ⟨type, -, hnode⟩ := hgrown.node?_new k (List.mem_mergeSort.mpr hk)
      exact ⟨type, _, hnode⟩
    exists_kit := fun _ _ hn ↦ hgrown.exists_kit hn }

end KitDump

/-! ### A load of a generated tree -/

namespace SyntheticTree

variable {t : SyntheticTree} {mint : Mint} {ks : List ContentKit} {v : ContentView} {d : KitDump}

/-- A complete tree of a shape: it has as many nodes at the top as the shape says and no level after
the last one; there are as many children as the shape says under every node above that level, and
none under those on it. -/
structure Fills (t : SyntheticTree) (v : ContentView) : Prop where
  length_all : v.all.length = t.nodeCount
  length_atRoot : v.atRoot.length = t.roots.toNat
  level_eq : ∀ n ∈ v.all, n.level.toNat = (v.ancestors n.id).length + 1
  level_le : ∀ n ∈ v.all, n.level.toNat ≤ t.depth.toNat
  length_children : ∀ n ∈ v.all, (v.children n.id).length =
    if n.level.toNat < t.depth.toNat then t.fanout.toNat else 0

theorem Enumerates.forest (h : t.Enumerates ks) : Forest ks where
  nodup_ids := nodup_ids_of_numbers h.numbers_eq
  payload k hk := (h.loadable k hk).payload
  parent k hk p hp := by
    obtain ⟨q, hq, rfl, hunder⟩ := h.parentsFirst.exists_of_parentId_eq hk hp
    exact ⟨q, hq, rfl, UInt32.lt_iff_toNat_lt.mpr (by rw [hunder.level_eq]; lia)⟩

theorem Enumerates.fills (h : t.Enumerates ks) (hv : v.Mirrors ks) : t.Fills v := by
  have hids := nodup_ids_of_numbers h.numbers_eq
  have hkit : ∀ n ∈ v.all, ∃ k ∈ ks, k.id = n.id ∧ k.level = n.level := fun n hn ↦ by
    obtain ⟨k, hk, type, children, rfl⟩ :=
      hv.exists_ofKit ((hv.grounded.linked.mem_all).mp hn)
    exact ⟨k, hk, rfl, rfl⟩
  exact {
    length_all := (hv.length_all hids).trans h.length_eq
    length_atRoot := (hv.length_atRoot hids).trans h.tops
    level_eq := fun n hn ↦ by
      obtain ⟨k, hk, hid, hlevel⟩ := hkit n hn
      rw [← hid, ← hlevel, hv.length_ancestors h.parentsFirst hk]
    level_le := fun n hn ↦ by
      obtain ⟨k, hk, -, hlevel⟩ := hkit n hn
      exact hlevel ▸ h.level_le k hk
    length_children := fun n hn ↦ by
      obtain ⟨k, hk, hid, hlevel⟩ := hkit n hn
      rw [← hid, ← hlevel, hv.length_children hids, h.children k hk] }

theorem plantable_of_dump (hd : t.dump mint = .ok d) : d.Plantable := by
  obtain ⟨hkits, htypes⟩ := enumerates_of_dump hd
  have hroots : t.roots ≠ 0 := fun hzero ↦ by
    obtain ⟨misuse, herror⟩ := (t.exists_dump_eq_error_iff mint).mpr (Or.inl hzero)
    rw [herror] at hd
    contradiction
  exact {
    nonempty := fun hnil ↦ hroots (UInt32.toNat_inj.mp (by
      rw [← hkits.tops, hnil]
      rfl))
    forest := hkits.forest
    nodup_types := htypes ▸ by decide
    typed := fun k hk ↦ htypes ▸ (hkits.loadable k hk).typed }

/-- The nodes of a shape are counted as they are, up to the greatest number there is; a shape makes
a dump unless it has no nodes at the top, no levels, or more nodes than are generated. The dump
lists as many kits as are counted, numbered from one on, every one after its parent, with level and
path derived from it and within range, and a load of it into a new store applies all of them and
makes a complete tree of the shape. -/
theorem dump_complete (t : SyntheticTree) (mint : Mint) :
    t.nodeCount = min (2 ^ 64 - 1)
        (∑ i ∈ Finset.range t.depth.toNat, t.roots.toNat * t.fanout.toNat ^ i) ∧
      ((∃ misuse, t.dump mint = .error misuse) ↔ t.roots = 0 ∨ t.depth = 0 ∨
        1000000 < ∑ i ∈ Finset.range t.depth.toNat, t.roots.toNat * t.fanout.toNat ^ i) ∧
      ∀ d, t.dump mint = .ok d → t.Enumerates d.kits ∧
        ∀ kind options s, ContentStore.create kind options = .ok s →
          (d.applyTo s).2.2 = ⟨t.nodeCount, 0, 0, 0⟩ ∧
            (d.applyTo s).1.shown.Mirrors d.kits ∧ t.Fills (d.applyTo s).1.shown := by
  refine ⟨t.nodeCount_eq, t.exists_dump_eq_error_iff mint, fun d hd ↦ ?_⟩
  obtain ⟨hkits, -⟩ := enumerates_of_dump hd
  refine ⟨hkits, fun kind options s hs ↦ ?_⟩
  have hloaded := (plantable_of_dump hd).loaded (.of_create hs)
  rw [hloaded.shown_eq]
  exact ⟨hkits.length_eq ▸ hloaded.report_eq, hloaded.mirrors, hkits.fills hloaded.mirrors⟩

/-- Two folders with three pages each. -/
def twoFolders : SyntheticTree := ⟨2, 3, 2⟩

/-- A mint that gives all kits the same key and the same date. -/
def plainMint : Mint := ⟨fun _ ↦ RecordedStore.page.key, RecordedStore.page.createDate⟩

/-- The eight kits of two folders with three pages each are loaded into a new store; the same shape
without levels makes no dump. -/
theorem dump_complete_twoFolders :
    ∃ d s, twoFolders.dump plainMint = .ok d ∧
      ContentStore.create .content StoreOptions.default = .ok s ∧ d.kits.length = 8 ∧
      (d.applyTo s).2.2 = ⟨8, 0, 0, 0⟩ ∧ (d.applyTo s).1.shown.atRoot.length = 2 ∧
      (∀ n ∈ (d.applyTo s).1.shown.all, ((d.applyTo s).1.shown.children n.id).length =
        if n.level.toNat < 2 then 3 else 0) ∧
      ∃ misuse, dump { twoFolders with depth := 0 } plainMint = .error misuse := by
  obtain ⟨-, -, hmade⟩ := dump_complete twoFolders plainMint
  obtain ⟨hkits, hload⟩ := hmade _ rfl
  obtain ⟨hreport, -, hfills⟩ := hload .content StoreOptions.default _ rfl
  refine ⟨_, _, rfl, rfl, hkits.length_eq, hreport, hfills.length_atRoot,
    hfills.length_children, ?_⟩
  obtain ⟨-, herror, -⟩ := dump_complete { twoFolders with depth := 0 } plainMint
  exact herror.mpr (Or.inr (Or.inl rfl))

end SyntheticTree

end VersionedContent
