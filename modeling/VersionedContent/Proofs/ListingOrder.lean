import Mathlib.Data.List.Sort
import VersionedContent.Proofs.TreeListings

/-!
# Listings do not show the order of children

A node keeps its children in the order in which they came. No listing shows that order: siblings
stand by sort order and id, and no two of them in one place. So two trees whose nodes differ in
their children only, and whose links agree, answer every read alike but for the order of children
(`ContentView.Linked.sameButChildOrder`).
-/

set_option autoImplicit false

namespace VersionedContent

/-- The node without its children. -/
def ContentNode.childless (n : ContentNode) : ContentNode := { n with childIds := [] }

namespace ContentView

/-- Two trees answer every read alike but for the order in which nodes keep their children. -/
structure SameButChildOrder (v w : ContentView) : Prop where
  node? : ∀ id, (v.node? id).map ContentNode.childless = (w.node? id).map ContentNode.childless
  childIds_perm : ∀ id n m, v.node? id = some n → w.node? id = some m → n.childIds.Perm m.childIds
  atRoot : v.atRoot.map ContentNode.childless = w.atRoot.map ContentNode.childless
  children : ∀ id,
    (v.children id).map ContentNode.childless = (w.children id).map ContentNode.childless
  ancestors : ∀ id,
    (v.ancestors id).map ContentNode.childless = (w.ancestors id).map ContentNode.childless
  all : v.all.map ContentNode.childless = w.all.map ContentNode.childless

variable {v w : ContentView}

theorem Linked.mem_childIds_getD (h : v.Linked) {p c : ContentId} :
    c ∈ ((v.node? p).map ContentNode.childIds).getD [] ↔ v.linkOf c = some (some p) := by
  cases hp : v.node? p with
  | some n => exact h.mem_childIds_iff hp c
  | none =>
    refine iff_of_false List.not_mem_nil fun hc ↦ ?_
    obtain ⟨n, hn⟩ := h.parent_exists hc
    rw [hp] at hn
    contradiction

variable (hsame : ∀ id,
  (v.node? id).map ContentNode.childless = (w.node? id).map ContentNode.childless)

include hsame

theorem linkOf_eq_of_childless (id : ContentId) : v.linkOf id = w.linkOf id := by
  have hlink := congrArg (Option.map ContentNode.parentId) (hsame id)
  rwa [Option.map_map, Option.map_map] at hlink

/-- Both trees list the same siblings, in the one order that there is for them. -/
theorem map_childless_siblings (hv : v.Linked) (hw : w.Linked) {ids others : List ContentId}
    (hids : ids.Nodup) (hothers : others.Nodup) (hmem : ∀ id, id ∈ ids ↔ id ∈ others) :
    ((ids.filterMap v.node?).mergeSort siblingLE).map ContentNode.childless =
      ((others.filterMap w.node?).mergeSort siblingLE).map ContentNode.childless := by
  have : Std.Asymm SiblingLT := ⟨fun a b hab hba ↦ by
    rcases hab with hlt | ⟨heq, hlt⟩ <;> rcases hba with hlt' | ⟨heq', hlt'⟩
    · exact Int32.lt_asymm hlt hlt'
    · exact Int32.lt_irrefl (heq' ▸ hlt)
    · exact Int32.lt_irrefl (heq ▸ hlt')
    · exact UInt32.lt_asymm hlt hlt'⟩
  have hlisted : ∀ (u : ContentView) (ids : List ContentId) n,
      n ∈ ((ids.filterMap u.node?).mergeSort siblingLE).map ContentNode.childless ↔
        ∃ id ∈ ids, (u.node? id).map ContentNode.childless = some n := by
    intro u ids n
    simp only [List.mem_map, List.mem_mergeSort, List.mem_filterMap, Option.map_eq_some_iff]
    exact ⟨fun ⟨m, ⟨id, hid, hm⟩, hn⟩ ↦ ⟨id, hid, m, hm, hn⟩,
      fun ⟨id, hid, m, hm, hn⟩ ↦ ⟨m, ⟨id, hid, hm⟩, hn⟩⟩
  refine List.Pairwise.eq_of_mem_iff (r := SiblingLT)
    (List.pairwise_map.mpr (hv.pairwise_siblings hids))
    (List.pairwise_map.mpr (hw.pairwise_siblings hothers)) fun n ↦ ?_
  simp only [hlisted, hsame, hmem]

theorem bind_parentId_eq_of_childless (id : ContentId) :
    (v.node? id).bind ContentNode.parentId = (w.node? id).bind ContentNode.parentId := by
  have hparent := congrArg (Option.bind · ContentNode.parentId) (hsame id)
  rwa [Option.bind_map, Option.bind_map] at hparent

theorem map_childless_lineage (bound : Nat) (parent : Option ContentId) :
    (v.lineage bound (parent.bind v.node?)).map ContentNode.childless =
      (w.lineage bound (parent.bind w.node?)).map ContentNode.childless := by
  induction bound generalizing parent with
  | zero => simp only [lineage]
  | succ bound ih =>
    cases parent with
    | none => rfl
    | some id =>
      have hid := hsame id
      rw [Option.bind_some, Option.bind_some]
      cases hn : v.node? id with
      | none =>
        rw [hn, Option.map_none, eq_comm, Option.map_eq_none_iff] at hid
        rw [hid]
        rfl
      | some n =>
        rw [hn, Option.map_some, eq_comm, Option.map_eq_some_iff] at hid
        obtain ⟨m, hm, heq⟩ := hid
        have hup : m.parentId = n.parentId := (congrArg ContentNode.parentId heq :)
        rw [hm, lineage, lineage, List.map_cons, List.map_cons, heq, hup, ih]

theorem map_childless_all : v.all.map ContentNode.childless = w.all.map ContentNode.childless := by
  have htable : v.nodes.map (fun _ ↦ ContentNode.childless) =
      w.nodes.map fun _ ↦ ContentNode.childless := by
    refine Std.ExtTreeMap.ext_getElem? fun id ↦ ?_
    rw [Std.ExtTreeMap.getElem?_map, Std.ExtTreeMap.getElem?_map]
    exact hsame id
  have hvalues : ∀ u : ContentView, u.nodes.values.map ContentNode.childless =
      (u.nodes.map fun _ ↦ ContentNode.childless).values := fun u ↦ by
    rw [values_eq_map_snd, values_eq_map_snd, Std.ExtTreeMap.toList_map, List.map_map, List.map_map]
    rfl
  have hsort : ∀ u : ContentView, u.all.map ContentNode.childless =
      (u.nodes.values.map ContentNode.childless).mergeSort listingLE :=
    fun u ↦ List.map_mergeSort fun _ _ _ _ ↦ rfl
  rw [hsort, hsort, hvalues, hvalues, htable]

/-- Trees whose nodes differ in their children only answer every read alike but for the order of
these. -/
theorem Linked.sameButChildOrder (hv : v.Linked) (hw : w.Linked) : v.SameButChildOrder w := by
  have hlinks := linkOf_eq_of_childless hsame
  exact {
    node? := hsame
    childIds_perm := by
      intro id n m hn hm
      refine (List.perm_ext_iff_of_nodup (hv.nodup_childIds hn) (hw.nodup_childIds hm)).mpr
        fun c ↦ ?_
      rw [hv.mem_childIds_iff hn, hw.mem_childIds_iff hm, hlinks]
    atRoot := by
      refine map_childless_siblings hsame hv hw Std.ExtTreeMap.nodup_keys
        Std.ExtTreeMap.nodup_keys fun id ↦ ?_
      rw [Std.ExtTreeMap.mem_keys, Std.ExtTreeMap.mem_keys, hv.mem_roots_iff, hw.mem_roots_iff,
        hlinks]
    children := by
      intro id
      refine map_childless_siblings hsame hv hw (hv.nodup_childIds_getD id)
        (hw.nodup_childIds_getD id) fun c ↦ ?_
      rw [hv.mem_childIds_getD, hw.mem_childIds_getD, hlinks]
    ancestors := by
      intro id
      unfold ContentView.ancestors parent?
      rw [bind_parentId_eq_of_childless hsame]
      exact map_childless_lineage hsame _ _
    all := map_childless_all hsame }

end ContentView

end VersionedContent
