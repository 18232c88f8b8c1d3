import VersionedContent.Consistency
import VersionedContent.Proofs.StoreRuns
import VersionedContent.Proofs.TreeLinks

/-!
# Listings of a linked tree

What a reader gets from a tree whose links agree: the check finds no problem, and the children of a
node and the nodes at the top are listed each once, in strict order. In every state of a run the
view of the writer and all that held pins show are such trees
(`RecordedStore.Reachable.treeConsistent`).
-/

set_option autoImplicit false

namespace VersionedContent

namespace ContentView

/-- Whether one node stands strictly before another among siblings: by sort order, then by id. -/
def SiblingLT (a b : ContentNode) : Prop :=
  a.sortOrder < b.sortOrder ∨ a.sortOrder = b.sortOrder ∧ a.id.val < b.id.val

/-- The three representations of a tree agree, the check finds no problem, and the listings show
what they should in strict order. -/
structure TreeConsistent (v : ContentView) : Prop where
  id_eq : ∀ id n, v.node? id = some n → n.id = id
  mem_childIds_iff : ∀ p c, (∃ n, v.node? p = some n ∧ c ∈ n.childIds) ↔
    ∃ n m, v.node? p = some n ∧ v.node? c = some m ∧ m.parentId = some p
  nodup_childIds : ∀ p n, v.node? p = some n → n.childIds.Nodup
  mem_roots_iff : ∀ id, id ∈ v.roots ↔ ∃ n, v.node? id = some n ∧ n.parentId = none
  linkProblem?_eq_none : v.linkProblem? = none
  mem_children_iff : ∀ p n, n ∈ v.children p ↔ v.node? n.id = some n ∧ n.parentId = some p
  nodup_children : ∀ p, (v.children p).Nodup
  pairwise_children : ∀ p, (v.children p).Pairwise SiblingLT
  mem_atRoot_iff : ∀ n, n ∈ v.atRoot ↔ v.node? n.id = some n ∧ n.parentId = none
  nodup_atRoot : v.atRoot.Nodup
  pairwise_atRoot : v.atRoot.Pairwise SiblingLT

/-! ### The order among siblings -/

theorem siblingLE_iff {a b : ContentNode} :
    siblingLE a b = true ↔
      a.sortOrder < b.sortOrder ∨ a.sortOrder = b.sortOrder ∧ a.id.val ≤ b.id.val := by
  simp [siblingLE]

theorem siblingLE_trans (a b c : ContentNode) (hab : siblingLE a b = true)
    (hbc : siblingLE b c = true) : siblingLE a c = true := by
  rw [siblingLE_iff] at *
  rcases hab with hab | ⟨hab, hids⟩
  · rcases hbc with hbc | ⟨hbc, -⟩
    · exact Or.inl (Int32.lt_trans hab hbc)
    · exact Or.inl (hbc ▸ hab)
  · rcases hbc with hbc | ⟨hbc, hids'⟩
    · exact Or.inl (hab ▸ hbc)
    · exact Or.inr ⟨hab.trans hbc, UInt32.le_trans hids hids'⟩

theorem siblingLE_total (a b : ContentNode) : (siblingLE a b || siblingLE b a) = true := by
  rw [Bool.or_eq_true, siblingLE_iff, siblingLE_iff]
  by_cases hsame : a.sortOrder = b.sortOrder
  · rcases UInt32.le_total a.id.val b.id.val with hle | hle
    · exact Or.inl (Or.inr ⟨hsame, hle⟩)
    · exact Or.inr (Or.inr ⟨hsame.symm, hle⟩)
  · rcases Int32.lt_or_lt_of_ne hsame with hlt | hlt
    · exact Or.inl (Or.inl hlt)
    · exact Or.inr (Or.inl hlt)

theorem siblingLT_of_siblingLE {a b : ContentNode} (hle : siblingLE a b = true)
    (hne : a.id ≠ b.id) : SiblingLT a b := by
  rcases siblingLE_iff.mp hle with hlt | ⟨hsame, hids⟩
  · exact Or.inl hlt
  · refine Or.inr ⟨hsame, UInt32.lt_of_le_of_ne hids fun heq ↦ hne ?_⟩
    cases ha : a.id
    cases hb : b.id
    rw [ha, hb] at heq
    exact congrArg ContentId.mk heq

variable {v : ContentView}

/-- The nodes of ids without duplicates are listed in strict order. -/
theorem Linked.pairwise_siblings (h : v.Linked) {ids : List ContentId} (hids : ids.Nodup) :
    ((ids.filterMap v.node?).mergeSort siblingLE).Pairwise SiblingLT := by
  have hnodes : (ids.filterMap v.node?).Pairwise fun a b ↦ a.id ≠ b.id := by
    refine List.pairwise_filterMap.mpr (hids.imp fun {x y} hne a ha b hb ↦ ?_)
    rw [h.id_eq ha, h.id_eq hb]
    exact hne
  have hsorted := List.pairwise_mergeSort siblingLE_trans siblingLE_total (ids.filterMap v.node?)
  have hdistinct := (List.mergeSort_perm (ids.filterMap v.node?) siblingLE).symm.pairwise hnodes
    fun hne ↦ hne.symm
  exact hsorted.imp₂ (fun _ _ ↦ siblingLT_of_siblingLE) hdistinct

theorem nodup_of_pairwise_siblingLT {nodes : List ContentNode}
    (h : nodes.Pairwise SiblingLT) : nodes.Nodup := by
  refine h.imp fun {a b} hlt heq ↦ ?_
  subst heq
  rcases hlt with hlt | ⟨-, hlt⟩
  · exact Int32.lt_irrefl hlt
  · exact UInt32.lt_irrefl _ hlt

/-! ### Listings of siblings -/

theorem Linked.nodup_childIds_getD (h : v.Linked) (p : ContentId) :
    (((v.node? p).map ContentNode.childIds).getD []).Nodup := by
  cases hp : v.node? p with
  | none => exact List.nodup_nil
  | some n => exact h.nodup_childIds hp

theorem Linked.linkOf_eq_some_iff (h : v.Linked) {n : ContentNode} {parent : Option ContentId} :
    v.node? n.id = some n ∧ n.parentId = parent ↔
      ∃ c, v.linkOf c = some parent ∧ v.node? c = some n := by
  constructor
  · rintro ⟨hn, rfl⟩
    exact ⟨n.id, by rw [linkOf, hn, Option.map_some], hn⟩
  · rintro ⟨c, hlink, hn⟩
    obtain rfl := h.id_eq hn
    rw [linkOf, hn, Option.map_some] at hlink
    exact ⟨hn, Option.some.inj hlink⟩

theorem Linked.mem_children (h : v.Linked) (p : ContentId) (n : ContentNode) :
    n ∈ v.children p ↔ v.node? n.id = some n ∧ n.parentId = some p := by
  rw [h.linkOf_eq_some_iff, children, List.mem_mergeSort, List.mem_filterMap]
  refine exists_congr fun c ↦ and_congr_left fun _ ↦ ?_
  cases hp : v.node? p with
  | none =>
    simp only [Option.map_none, Option.getD_none, List.not_mem_nil, false_iff]
    intro hlink
    obtain ⟨m, hm⟩ := h.parent_exists hlink
    rw [hp] at hm
    contradiction
  | some m => exact h.mem_childIds_iff hp c

theorem Linked.mem_atRoot (h : v.Linked) (n : ContentNode) :
    n ∈ v.atRoot ↔ v.node? n.id = some n ∧ n.parentId = none := by
  rw [h.linkOf_eq_some_iff, atRoot, List.mem_mergeSort, List.mem_filterMap]
  refine exists_congr fun c ↦ and_congr_left fun _ ↦ ?_
  rw [Std.ExtTreeMap.mem_keys, h.mem_roots_iff]

theorem Linked.pairwise_atRoot (h : v.Linked) : v.atRoot.Pairwise SiblingLT :=
  h.pairwise_siblings Std.ExtTreeMap.nodup_keys

/-! ### The check -/

theorem values_eq_map_snd {κ α : Type} [Ord κ] [Std.TransOrd κ] (t : Std.ExtTreeMap κ α) :
    t.values = t.toList.map Prod.snd := by
  obtain ⟨⟨m⟩⟩ := t
  induction m using Quotient.ind with
  | _ m =>
    show m.inner.values = (Std.DTreeMap.Internal.Impl.Const.toList m.inner).map Prod.snd
    rw [Std.DTreeMap.Internal.Impl.values_eq_map_snd,
      Std.DTreeMap.Internal.Impl.Const.toList_eq_toListModel_map, List.map_map]
    rfl

theorem mem_values_iff {κ α : Type} [Ord κ] [Std.TransOrd κ] [Std.LawfulEqOrd κ]
    {t : Std.ExtTreeMap κ α} {a : α} : a ∈ t.values ↔ ∃ key : κ, t[key]? = some a := by
  rw [values_eq_map_snd, List.mem_map]
  constructor
  · rintro ⟨⟨key, b⟩, hmem, rfl⟩
    exact ⟨key, Std.ExtTreeMap.mem_toList_iff_getElem?_eq_some.mp hmem⟩
  · rintro ⟨key, hkey⟩
    exact ⟨(key, a), Std.ExtTreeMap.mem_toList_iff_getElem?_eq_some.mpr hkey, rfl⟩

theorem exists_node?_of_mem_all {n : ContentNode} (hn : n ∈ v.all) :
    ∃ id, v.node? id = some n := by
  rw [all, List.mem_mergeSort] at hn
  exact mem_values_iff.mp hn

theorem Linked.childProblem?_eq_none (h : v.Linked) {n : ContentNode}
    (hn : v.node? n.id = some n) {c : ContentId} (hc : c ∈ n.childIds) :
    v.childProblem? n c = none := by
  obtain ⟨m, hm, hparent⟩ := Option.map_eq_some_iff.mp ((h.mem_childIds_iff hn c).mp hc)
  simp only [childProblem?, hm, hparent, if_true]

theorem Linked.parentProblem?_eq_none (h : v.Linked) {n : ContentNode}
    (hn : v.node? n.id = some n) :
    v.parentProblem? (v.atRoot.map ContentNode.id) n = none := by
  unfold parentProblem?
  cases hparent : n.parentId with
  | none =>
    have hroot : n.id ∈ v.atRoot.map ContentNode.id :=
      List.mem_map_of_mem ((h.mem_atRoot n).mpr ⟨hn, hparent⟩)
    exact if_pos hroot
  | some p =>
    have hlink : v.linkOf n.id = some (some p) := by rw [linkOf, hn, Option.map_some, hparent]
    obtain ⟨m, hm⟩ := h.parent_exists hlink
    have hlisted : n.id ∈ m.childIds := (h.mem_childIds_iff hm n.id).mpr hlink
    simp only [hm, if_pos hlisted]

/-- The check finds no problem in a linked tree. -/
theorem Linked.linkProblem?_eq_none (h : v.Linked) : v.linkProblem? = none := by
  refine List.findSome?_eq_none_iff.mpr fun n hn ↦ ?_
  obtain ⟨id, hid⟩ := exists_node?_of_mem_all hn
  obtain rfl := h.id_eq hid
  have hchildren : n.childIds.findSome? (v.childProblem? n) = none :=
    List.findSome?_eq_none_iff.mpr fun c hc ↦ h.childProblem?_eq_none hid hc
  rw [nodeProblem?, hchildren, Option.none_or, h.parentProblem?_eq_none hid]

theorem Linked.consistent (h : v.Linked) : v.TreeConsistent where
  id_eq _ _ hn := h.id_eq hn
  mem_childIds_iff p c := by
    constructor
    · rintro ⟨n, hn, hc⟩
      obtain ⟨m, hm, hparent⟩ := Option.map_eq_some_iff.mp ((h.mem_childIds_iff hn c).mp hc)
      exact ⟨n, m, hn, hm, hparent⟩
    · rintro ⟨n, m, hn, hm, hparent⟩
      exact ⟨n, hn, (h.mem_childIds_iff hn c).mpr (by rw [linkOf, hm, Option.map_some, hparent])⟩
  nodup_childIds _ _ hn := h.nodup_childIds hn
  mem_roots_iff id := (h.mem_roots_iff id).trans Option.map_eq_some_iff
  linkProblem?_eq_none := h.linkProblem?_eq_none
  mem_children_iff := h.mem_children
  nodup_children p := nodup_of_pairwise_siblingLT (h.pairwise_siblings (h.nodup_childIds_getD p))
  pairwise_children p := h.pairwise_siblings (h.nodup_childIds_getD p)
  mem_atRoot_iff := h.mem_atRoot
  nodup_atRoot := nodup_of_pairwise_siblingLT h.pairwise_atRoot
  pairwise_atRoot := h.pairwise_atRoot

end ContentView

namespace RecordedStore

/-- In every state of a run, after each single operation of a writer, the view of the writer and all
that a held pin shows are trees whose links agree. -/
theorem Reachable.treeConsistent {kind : ItemKind} {options : StoreOptions} {r : RecordedStore}
    (hr : Reachable kind options r) :
    r.store.live.view.TreeConsistent ∧
      ∀ pin ∈ r.clock.held, (r.store.viewAt pin.generation).TreeConsistent := by
  have hempty : LiveContent.empty.view.Linked := ContentView.linked_empty
  refine ⟨(hr.keeps ContentView.linked_invariant hempty).1.consistent, fun pin hpin ↦ ?_⟩
  obtain ⟨l, hlinked, hview⟩ := hr.keeps_of_mem_held ContentView.linked_invariant hempty hpin
  rw [← hview]
  exact hlinked.consistent

/-- A page below the pinned one, written in a section that is still open. -/
def pageExtended : RecordedStore :=
  let below : ContentKit := { page with id := ⟨2⟩, parentId := some ⟨1⟩, level := 2 }
  { pagePinned with store := (pagePinned.store.openSection.perform (.set below)).1 }

theorem reachable_pageExtended : Reachable .content StoreOptions.default pageExtended := by
  obtain ⟨s, hs, hsteps⟩ := reachable_pagePinned
  exact ⟨s, hs, (hsteps.tail (.openSection rfl)).tail (.perform rfl _)⟩

/-- The writer sees the pinned page with a child, which the pin does not show. -/
theorem Reachable.treeConsistent_pageExtended :
    ⟨1, 0⟩ ∈ pageExtended.clock.held ∧
      pageExtended.store.live.view.node? ⟨1⟩ = some (.ofKit page pageType [⟨2⟩]) ∧
      (pageExtended.store.viewAt 1).node? ⟨1⟩ = some (.ofKit page pageType []) ∧
      pageExtended.store.live.view.TreeConsistent ∧
      (pageExtended.store.viewAt 1).TreeConsistent := by
  have hpin : (⟨1, 0⟩ : Pin) ∈ pageExtended.clock.held := by decide +kernel
  obtain ⟨hlive, hpins⟩ := reachable_pageExtended.treeConsistent
  exact ⟨hpin, by decide +kernel, by decide +kernel, hlive, hpins _ hpin⟩

end RecordedStore

end VersionedContent
