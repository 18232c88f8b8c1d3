import VersionedContent.Proofs.BranchRemoval
import VersionedContent.Proofs.NewKits

/-!
# Replacing a branch

A branch is replaced by removing it and applying kits. If the kits make a branch themselves, under a
parent outside of the old one, and no id of theirs is taken outside of it, then all of them are
kits for new nodes that fit, a parent before what is under it. What is there afterwards is the tree
without the old branch and with the new one (`RecordedStore.Reachable.branchReplaced`); of the other
nodes only the old and the new parent of the root are rewritten.
-/

set_option autoImplicit false

namespace VersionedContent

/-- Kits that make a branch in place of that of a node: one of them is for the node itself, every
other one names a kit of them at a level above its own as its parent, and no id is taken outside of
the old branch. -/
structure Edit.MakesBranch (v : ContentView) (root : ContentId) (ks : List ContentKit)
    (top : ContentKit) : Prop where
  nodup_ids : (ks.map ContentKit.id).Nodup
  free : ∀ k ∈ ks, v.node? k.id = none ∨ v.Below root k.id
  payload : ∀ k ∈ ks, k.isEmpty = false
  typed : ∀ k ∈ ks, ∃ type, v.type? k.contentTypeId = some type
  top_mem : top ∈ ks
  top_id : top.id = root
  top_parent : ∀ p, top.parentId = some p → (∃ n, v.node? p = some n) ∧ ¬v.Below root p
  parent : ∀ k ∈ ks, k ≠ top → ∃ p ∈ ks, k.parentId = some p.id ∧ p.level < k.level

/-! ### Kits that make a branch -/

namespace Edit.MakesBranch

open ContentView LiveContent

variable {s t : LiveContent} {root x : ContentId} {ks : List ContentKit} {top k : ContentKit}

theorem eq_of_id_eq (h : MakesBranch s.view root ks top) {d : ContentKit}
    (hk : k ∈ ks) (hd : d ∈ ks) (heq : k.id = d.id) : k = d :=
  List.inj_on_of_nodup_map h.nodup_ids hk hd heq

/-- Only the kit of the root has a parent that has no kit, or none. -/
theorem eq_top (h : MakesBranch s.view root ks top) (hk : k ∈ ks)
    (hparent : ∀ p, k.parentId = some p → ∀ d ∈ ks, d.id ≠ p) : k = top := by
  by_contra hne
  obtain ⟨p, hp, hup, -⟩ := h.parent k hk hne
  exact hparent p.id hup p hp rfl

theorem parentId_ne_self (h : MakesBranch s.view root ks top) (hk : k ∈ ks) :
    k.parentId ≠ some k.id := by
  intro hself
  by_cases htop : k = top
  · subst htop
    exact (h.top_parent k.id hself).2 (h.top_id ▸ below_self)
  · obtain ⟨p, hp, hup, hlt⟩ := h.parent k hk htop
    obtain rfl := h.eq_of_id_eq hk hp (Option.some.inj (hself.symm.trans hup))
    exact UInt32.lt_irrefl _ hlt

/-- Once the old branch is gone there is no node yet for any of the kits. -/
theorem node?_removeSubtree (h : MakesBranch s.view root ks top)
    (hlinked : s.view.Linked) (hk : k ∈ ks) :
    (removeSubtree s root).1.view.node? k.id = none := by
  by_cases hbelow : s.view.Below root k.id
  · exact hlinked.node?_removeSubtree_of_below hbelow
  · rw [LiveContent.node?_removeSubtree hlinked hbelow, (h.free k hk).resolve_right hbelow,
      Option.map_none]

/-- Once the old branch is gone every kit fits by its turn. -/
theorem picks (h : MakesBranch s.view root ks top) (hlinked : s.view.Linked) :
    Picks (removeSubtree s root).1.view (fun _ ↦ true) (ks.mergeSort levelLE) := by
  intro done k rest hsorted
  have hk : k ∈ ks := List.mem_mergeSort.mp (hsorted ▸ List.mem_append_cons_self)
  have htypes := type?_of_typeTables (typeTables_removeSubtree s root)
  refine iff_of_true rfl ⟨h.payload k hk, htypes ▸ h.typed k hk, fun q hq ↦ ?_⟩
  by_cases htop : k = top
  · subst htop
    obtain ⟨⟨n, hn⟩, hnot⟩ := h.top_parent q hq
    exact Or.inl ⟨_, by rw [LiveContent.node?_removeSubtree hlinked hnot, hn, Option.map_some]⟩
  · obtain ⟨p, hp, hup, hlt⟩ := h.parent k hk htop
    refine Or.inr ⟨p, List.mem_filter.mpr ⟨mem_of_level_lt hsorted hp hlt, rfl⟩, ?_⟩
    exact Option.some.inj (hup.symm.trans hq)

theorem grown (h : MakesBranch s.view root ks top) (hs : s.Sound) :
    (removeSubtree s root).1.Grown (ks.mergeSort levelLE) (setBranch s root ks).1 ∧
      (setBranch s root ks).2 = ⟨ks.length, 0, 0, 0⟩ := by
  have hlinked := hs.grounded.linked
  have htypes := type?_of_typeTables (typeTables_removeSubtree s root)
  obtain ⟨hgrown, hreport⟩ := (sound_invariant.removeSubtree hs root).grown_setOrdered
    (h.picks hlinked) h.nodup_ids (fun k hk ↦ h.node?_removeSubtree hlinked hk)
    fun k hk ↦ h.parentId_ne_self hk
  rw [List.filter_true] at hgrown
  exact ⟨hgrown, hreport.trans (LoadReport.on_all (htypes ▸ h.typed))⟩

/-- Of the nodes without a kit only the parent of the root gets a child. -/
theorem idsUnder_eq (h : MakesBranch s.view root ks top) (hx : ∀ k ∈ ks, k.id ≠ x) :
    ContentKit.idsUnder (ks.mergeSort levelLE) x =
      if top.parentId = some x then [root] else [] := by
  have hperm := List.mergeSort_perm ks levelLE
  have hnodup : (ContentKit.idsUnder (ks.mergeSort levelLE) x).Nodup :=
    ((hperm.map _).nodup_iff.mpr h.nodup_ids).sublist (List.filter_sublist.map _)
  have hmem : ∀ c, c ∈ ContentKit.idsUnder (ks.mergeSort levelLE) x ↔
      c = root ∧ top.parentId = some x := by
    intro c
    simp only [ContentKit.idsUnder, List.mem_map, List.mem_filter, List.mem_mergeSort,
      decide_eq_true_iff]
    constructor
    · rintro ⟨k, ⟨hk, hunder⟩, rfl⟩
      obtain rfl := h.eq_top hk fun p hp d hd heq ↦
        hx d hd (heq.trans (Option.some.inj (hp.symm.trans hunder)))
      exact ⟨h.top_id, hunder⟩
    · rintro ⟨rfl, hunder⟩
      exact ⟨top, ⟨h.top_mem, hunder⟩, h.top_id⟩
  split_ifs with hunder
  · refine List.perm_singleton.mp
      ((List.perm_ext_iff_of_nodup hnodup (List.nodup_singleton root)).mpr fun c ↦ ?_)
    rw [hmem, List.mem_singleton, and_iff_left hunder]
  · exact List.eq_nil_iff_forall_not_mem.mpr fun c hc ↦ hunder ((hmem c).mp hc).2

/-- Only the root of the branch can come to the top. -/
theorem exists_atTop_iff (h : MakesBranch s.view root ks top) :
    (∃ k ∈ ks.mergeSort levelLE, k.id = x ∧ k.parentId = none) ↔
      x = root ∧ top.parentId = none := by
  simp only [List.mem_mergeSort]
  constructor
  · rintro ⟨k, hk, rfl, hnone⟩
    obtain rfl := h.eq_top hk (by simp [hnone])
    exact ⟨h.top_id, hnone⟩
  · rintro ⟨rfl, hnone⟩
    exact ⟨top, h.top_mem, h.top_id, hnone⟩

/-- A node without a kit is as the removal of the old branch left it, but for the child that the new
parent of the root gets. -/
theorem node?_setBranch (h : MakesBranch s.view root ks top) (hs : s.Sound)
    (hx : ∀ k ∈ ks, k.id ≠ x) :
    (setBranch s root ks).1.view.node? x = ((removeSubtree s root).1.view.node? x).map
      (·.adopting (if top.parentId = some x then [root] else [])) := by
  rw [(h.grown hs).1.node?_old x (by simpa using hx), h.idsUnder_eq hx]

/-- No kit is for a node outside of the branch. -/
theorem ne_of_not_below (h : MakesBranch s.view root ks top) {n : ContentNode}
    (hn : s.view.node? x = some n) (hnot : ¬s.view.Below root x) : ∀ k ∈ ks, k.id ≠ x := by
  rintro k hk rfl
  rw [(h.free k hk).resolve_right hnot] at hn
  contradiction

/-- What is below the root of the new branch has a kit: the parent of a node without one has been
there before, and so has no kit either. -/
theorem exists_kit_of_climb (h : MakesBranch s.view root ks top) (hs : s.Sound)
    (hgrown : (removeSubtree s root).1.Grown (ks.mergeSort levelLE) t) {steps : Nat}
    (hx : t.view.climb steps x = some root) : ∃ k ∈ ks, k.id = x := by
  have hlinked := hs.grounded.linked
  induction steps generalizing x with
  | zero => exact ⟨top, h.top_mem, h.top_id.trans (Option.some.inj hx).symm⟩
  | succ steps ih =>
    rw [Nat.add_comm, climb_add] at hx
    obtain ⟨q, hq, hrest⟩ := Option.bind_eq_some_iff.mp hx
    have hlink : t.view.linkOf x = some (some q) :=
      parentId_eq_some_iff.mp (by simpa [climb] using hq)
    obtain ⟨d, hd, rfl⟩ := ih hrest
    by_contra hnone
    have hold : x ∉ (ks.mergeSort levelLE).map ContentKit.id := fun hmem ↦ by
      obtain ⟨k, hk, heq⟩ := List.mem_map.mp hmem
      exact hnone ⟨k, List.mem_mergeSort.mp hk, heq⟩
    have hbefore : (removeSubtree s root).1.view.linkOf x = some (some d.id) := by
      rw [linkOf, hgrown.node?_old x hold, Option.map_map] at hlink
      exact hlink
    obtain ⟨n, hn⟩ := (hlinked.removeSubtree root).parent_exists hbefore
    rw [h.node?_removeSubtree hlinked hd] at hn
    contradiction

/-- Every kit has its node below the root of the new branch, by way of the kits above it. -/
theorem below_of_kit (h : MakesBranch s.view root ks top)
    (hgrown : (removeSubtree s root).1.Grown (ks.mergeSort levelLE) t) (hk : k ∈ ks) :
    t.view.Below root k.id := by
  induction hlevel : k.level.toNat using Nat.strongRecOn generalizing k with
  | ind level ih =>
    by_cases htop : k = top
    · rw [htop, h.top_id]
      exact below_self
    · obtain ⟨p, hp, hup, hlt⟩ := h.parent k hk htop
      obtain ⟨type, -, hnode⟩ := hgrown.node?_new k (List.mem_mergeSort.mpr hk)
      have hlink : t.view.linkOf k.id = some (some p.id) := by
        rw [linkOf, hnode, Option.map_some, ← hup]
        rfl
      have habove : p.level.toNat < level := hlevel ▸ UInt32.lt_iff_toNat_lt.mp hlt
      exact (ih p.level.toNat habove hp rfl).of_parent hlink

end Edit.MakesBranch

/-! ### What is there afterwards -/

namespace LiveContent

open ContentView Edit

variable {s : LiveContent} {root : ContentId} {ks : List ContentKit} {top : ContentKit}

/-- What a state becomes when a branch is replaced, and the report. -/
structure BranchReplaced (s : LiveContent) (root : ContentId) (ks : List ContentKit)
    (top : ContentKit) (t : LiveContent) (report : LoadReport) : Prop where
  report_eq : report = ⟨ks.length, 0, 0, 0⟩
  /-- The nodes of the branch are those of the kits. -/
  below_iff : ∀ x, (∃ n, t.view.node? x = some n) ∧ t.view.Below root x ↔ ∃ k ∈ ks, k.id = x
  /-- A node of the branch is as its kit has it, under the parent of the kit. -/
  node?_kit : ∀ k ∈ ks, ∃ type, s.view.type? k.contentTypeId = some type ∧
    t.view.node? k.id = some (.ofKit k type (ContentKit.idsUnder (ks.mergeSort levelLE) k.id))
  /-- A node of the old branch that has no kit is gone. -/
  node?_gone : ∀ x, s.view.Below root x → (∀ k ∈ ks, k.id ≠ x) → t.view.node? x = none
  /-- Outside of the branch nothing new is there. -/
  node?_none : ∀ x, s.view.node? x = none → (∀ k ∈ ks, k.id ≠ x) → t.view.node? x = none
  /-- A node outside of the branch loses the root of the branch from among its children if it had it
  there, and gets it behind them if it is the new parent. -/
  node?_outside : ∀ x n, s.view.node? x = some n → ¬s.view.Below root x →
    t.view.node? x = some ((n.withoutChild root).adopting
      (if top.parentId = some x then [root] else []))
  /-- A node outside of the branch that is neither the old nor the new parent stays as it is. -/
  node?_other : ∀ x n, s.view.node? x = some n → ¬s.view.Below root x →
    (∀ m, s.view.node? root = some m → m.parentId ≠ some x) → top.parentId ≠ some x →
      t.view.node? x = some n
  mem_roots_iff : ∀ x, x ∈ t.view.roots ↔
    if x = root then top.parentId = none else x ∈ s.view.roots
  mem_nodesOf_iff : ∀ u x, x ∈ t.index.nodesOf u ↔
    x ∈ s.index.nodesOf u ∧ ¬s.view.Below root x ∨ ∃ k ∈ ks, k.id = x ∧ k.contentTypeId = u
  typeTables_eq : t.typeTables = s.typeTables

theorem Sound.replaced_setBranch (h : s.Sound) (hkits : MakesBranch s.view root ks top) :
    s.BranchReplaced root ks top (setBranch s root ks).1 (setBranch s root ks).2 := by
  have hlinked := h.grounded.linked
  obtain ⟨hgrown, hreport⟩ := hkits.grown h
  have houtside : ∀ x n, s.view.node? x = some n → ¬s.view.Below root x →
      (setBranch s root ks).1.view.node? x = some ((n.withoutChild root).adopting
        (if top.parentId = some x then [root] else [])) := by
    intro x n hn hnot
    rw [hkits.node?_setBranch h (hkits.ne_of_not_below hn hnot), node?_removeSubtree hlinked hnot,
      hn, Option.map_some, Option.map_some]
  exact {
    report_eq := hreport
    below_iff := by
      intro x
      constructor
      · rintro ⟨-, steps, hsteps⟩
        exact hkits.exists_kit_of_climb h hgrown hsteps
      · rintro ⟨k, hk, rfl⟩
        obtain ⟨type, -, hnode⟩ := hgrown.node?_new k (List.mem_mergeSort.mpr hk)
        exact ⟨⟨_, hnode⟩, hkits.below_of_kit hgrown hk⟩
    node?_kit := by
      intro k hk
      obtain ⟨type, htype, hnode⟩ := hgrown.node?_new k (List.mem_mergeSort.mpr hk)
      exact ⟨type, type?_of_typeTables (typeTables_removeSubtree s root) ▸ htype, hnode⟩
    node?_gone := by
      intro x hbelow hx
      rw [hkits.node?_setBranch h hx, hlinked.node?_removeSubtree_of_below hbelow, Option.map_none]
    node?_none := by
      intro x hnone hx
      have hstill : (removeSubtree s root).1.view.node? x = none := by
        by_cases hbelow : s.view.Below root x
        · exact hlinked.node?_removeSubtree_of_below hbelow
        · rw [node?_removeSubtree hlinked hbelow, hnone, Option.map_none]
      rw [hkits.node?_setBranch h hx, hstill, Option.map_none]
    node?_outside := houtside
    node?_other := by
      intro x n hn hnot hparent htop
      rw [houtside x n hn hnot, if_neg htop, ContentNode.adopting_nil,
        withoutChild_of_not_mem (not_mem_childIds hlinked hn hparent)]
    mem_roots_iff := by
      intro x
      have hbefore : x ∈ (removeSubtree s root).1.view.roots ↔
          x ∈ s.view.roots ∧ ¬s.view.Below root x := (h.cleared root).mem_roots_iff x
      rw [hgrown.mem_roots_iff, hbefore, hkits.exists_atTop_iff]
      split_ifs with hx
      · simp [hx, below_self]
      · simp only [hx, false_and, or_false, and_iff_left_iff_imp]
        exact fun hroot hbelow ↦ hx (hlinked.eq_of_mem_roots hroot hbelow)
    mem_nodesOf_iff := by
      intro u x
      rw [hgrown.mem_nodesOf_iff, h.indexed.nodesOf_removeSubtree root u, List.mem_filter,
        decide_eq_true_iff]
      simp only [List.mem_mergeSort]
    typeTables_eq := hgrown.typeTables_eq.trans (typeTables_removeSubtree s root) }

end LiveContent

/-! ### In every state of a run -/

namespace RecordedStore

variable {r : RecordedStore} {kind : ItemKind} {options : StoreOptions}

/-- Replacing a branch by kits that make one applies all of them and touches nothing else, in every
state of a run and in every state that an operation passes through there. -/
theorem Reachable.branchReplaced (hr : Reachable kind options r) (root : ContentId)
    (ks : List ContentKit) (top : ContentKit) :
    (Edit.MakesBranch r.store.live.view root ks top →
        r.store.live.BranchReplaced root ks top (r.store.setBranch root ks).1.live
          (r.store.setBranch root ks).2) ∧
      ∀ l, Edits r.store.live l → Edit.MakesBranch l.view root ks top →
        l.BranchReplaced root ks top (Edit.setBranch l root ks).1 (Edit.setBranch l root ks).2 := by
  have hsound := (hr.keeps LiveContent.sound_invariant LiveContent.sound_empty).1
  refine ⟨fun hkits ↦ ?_, fun l hedits hkits ↦
    (LiveContent.sound_invariant.edits hsound hedits).replaced_setBranch hkits⟩
  obtain ⟨-, hlive, hanswer, -⟩ :=
    ContentStore.perform_follows hr.faithful.headsLE (.setBranch root ks)
  have hstate : (r.store.setBranch root ks).1.live = (Edit.setBranch r.store.live root ks).1 :=
    hlive
  have hreport : (r.store.setBranch root ks).2 = (Edit.setBranch r.store.live root ks).2 :=
    WriterAnswer.loaded.inj hanswer
  rw [hstate, hreport]
  exact hsound.replaced_setBranch hkits

/-- The lower page moved to the top, with a new page below it. -/
def raisedBranch : List ContentKit :=
  [pageRaised, { page with id := ⟨3⟩, parentId := some ⟨2⟩, level := 2 }]

/-- Replacing the lower page by a branch at the top takes it from the children of the upper one. -/
theorem Reachable.branchReplaced_raisedBranch :
    Edit.MakesBranch pageExtended.store.live.view ⟨2⟩ raisedBranch pageRaised ∧
      (pageExtended.store.setBranch ⟨2⟩ raisedBranch).2 = ⟨2, 0, 0, 0⟩ ∧
      (pageExtended.store.setBranch ⟨2⟩ raisedBranch).1.live.view.Below ⟨2⟩ ⟨3⟩ ∧
      (pageExtended.store.setBranch ⟨2⟩ raisedBranch).1.live.view.node? ⟨1⟩ =
        some (.ofKit page pageType []) := by
  have htypes : ∀ k ∈ raisedBranch,
      pageExtended.store.live.view.type? k.contentTypeId = some pageType := by decide +kernel
  have hmakes : Edit.MakesBranch pageExtended.store.live.view ⟨2⟩ raisedBranch pageRaised := {
    nodup_ids := by decide
    free := by decide +kernel
    payload := by decide
    typed := fun k hk ↦ ⟨pageType, htypes k hk⟩
    top_mem := by decide
    top_id := rfl
    top_parent := fun _ hp ↦ by cases hp
    parent := by decide }
  have hreplaced := (reachable_pageExtended.branchReplaced ⟨2⟩ raisedBranch pageRaised).1 hmakes
  have hupper : pageExtended.store.live.view.node? ⟨1⟩ = some (.ofKit page pageType [⟨2⟩]) := by
    decide +kernel
  exact ⟨hmakes, hreplaced.report_eq, ((hreplaced.below_iff ⟨3⟩).mpr (by decide)).2,
    hreplaced.node?_outside ⟨1⟩ _ hupper (by decide +kernel)⟩

end RecordedStore

end VersionedContent
