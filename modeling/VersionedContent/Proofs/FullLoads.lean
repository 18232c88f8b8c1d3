import VersionedContent.Proofs.FullRelease
import VersionedContent.Proofs.ListingOrder
import VersionedContent.Proofs.NewKits

/-!
# Loads of a whole tree

A load clears the tree first, so every kit is one for a new node. It is applied exactly if it is
well-rooted: it has a payload and a defined type, and it stands at the top or under such a kit. Kits
are taken by level, hence a parent before what is under it; in which order the list has them shows
in the stored order of children only (`RecordedStore.Reachable.reloaded`).

Nothing of what there was before is left but the content types. So a load of any kits does the same
to two stores with the same types by id, whatever they hold
(`RecordedStore.Reachable.setAll_sameTree`).
-/

set_option autoImplicit false

namespace VersionedContent

/-! ### Well-rooted kits -/

/-- A kit that names another one of the list as its parent stands at a level below it. -/
def ContentKit.Leveled (ks : List ContentKit) : Prop :=
  ∀ k ∈ ks, ∀ p ∈ ks, k.parentId = some p.id → p.level < k.level

instance (ks : List ContentKit) : Decidable (ContentKit.Leveled ks) :=
  inferInstanceAs (Decidable (∀ k ∈ ks, ∀ p ∈ ks, k.parentId = some p.id → p.level < k.level))

namespace Edit

/-- A kit of a list that has a payload and a defined type, and no parent or another such kit of the
list as its parent. -/
inductive WellRooted (v : ContentView) (ks : List ContentKit) : ContentKit → Prop
  | top {k : ContentKit} (hk : k ∈ ks) (hpayload : k.isEmpty = false)
    (htyped : ∃ type, v.type? k.contentTypeId = some type) (hparent : k.parentId = none) :
    WellRooted v ks k
  | under {k p : ContentKit} (hk : k ∈ ks) (hpayload : k.isEmpty = false)
    (htyped : ∃ type, v.type? k.contentTypeId = some type) (hparent : k.parentId = some p.id)
    (hp : WellRooted v ks p) : WellRooted v ks k

/-- A kit with a payload whose type is not defined. -/
def Untyped (v : ContentView) (k : ContentKit) : Prop :=
  k.isEmpty = false ∧ v.type? k.contentTypeId = none

/-- A kit with a payload and a defined type whose parent is not a well-rooted kit. -/
def Orphaned (v : ContentView) (ks : List ContentKit) (k : ContentKit) : Prop :=
  k.isEmpty = false ∧ (∃ type, v.type? k.contentTypeId = some type) ∧
    ∃ p, k.parentId = some p ∧ ∀ d, WellRooted v ks d → d.id ≠ p

open Classical in
/-- The well-rooted kits of a list, by level. -/
noncomputable def wellRooted (v : ContentView) (ks : List ContentKit) : List ContentKit :=
  (ks.mergeSort levelLE).filter fun k ↦ WellRooted v ks k

variable {v : ContentView} {ks others : List ContentKit} {k : ContentKit}

theorem WellRooted.mem (h : WellRooted v ks k) : k ∈ ks := by
  cases h <;> assumption

theorem WellRooted.payload (h : WellRooted v ks k) : k.isEmpty = false := by
  cases h <;> assumption

theorem WellRooted.typed (h : WellRooted v ks k) :
    ∃ type, v.type? k.contentTypeId = some type := by
  cases h <;> assumption

open Classical in
theorem mem_wellRooted : k ∈ wellRooted v ks ↔ WellRooted v ks k := by
  rw [wellRooted, List.mem_filter, List.mem_mergeSort, decide_eq_true_iff]
  exact and_iff_right_of_imp WellRooted.mem

/-- What keeps a kit with a payload and a defined type from being well-rooted is its parent. -/
theorem orphaned_iff (hk : k ∈ ks) :
    Orphaned v ks k ↔ k.isEmpty = false ∧ (∃ type, v.type? k.contentTypeId = some type) ∧
      ¬WellRooted v ks k := by
  refine and_congr_right fun hpayload ↦ and_congr_right fun htyped ↦ ?_
  constructor
  · rintro ⟨p, hp, hnone⟩ hrooted
    cases hrooted with
    | top _ _ _ hparent => simp [hp] at hparent
    | under _ _ _ hparent hd => exact hnone _ hd (Option.some.inj (hparent.symm.trans hp))
  · intro hnot
    cases hparent : k.parentId with
    | none => exact absurd (.top hk hpayload htyped hparent) hnot
    | some p =>
      refine ⟨p, rfl, fun d hd heq ↦ hnot ?_⟩
      exact .under hk hpayload htyped (hparent.trans (congrArg some heq.symm)) hd

/-- Which kits are well-rooted does not depend on their order. -/
theorem WellRooted.perm (hperm : ks.Perm others) (h : WellRooted v ks k) :
    WellRooted v others k := by
  induction h with
  | top hk hpayload htyped hparent => exact .top (hperm.mem_iff.mp hk) hpayload htyped hparent
  | under hk hpayload htyped hparent _ ih =>
    exact .under (hperm.mem_iff.mp hk) hpayload htyped hparent ih

theorem wellRooted_perm_iff (hperm : ks.Perm others) :
    WellRooted v ks k ↔ WellRooted v others k :=
  ⟨.perm hperm, .perm hperm.symm⟩

end Edit

/-! ### A load of distinct kits -/

/-- The state without its tree. -/
def Edit.emptied {σ : Type} [LiveTables σ] (s : σ) : σ :=
  LiveTables.setIndex (LiveTables.clearTree s) TypeIndex.empty

namespace LiveContent

open Edit

variable {s t : LiveContent} {ks others : List ContentKit}

open Classical in
/-- What a state becomes by a load, and the report: its nodes are those of the well-rooted kits,
each under the parent of its kit; the other kits are counted under the reason to skip them. -/
structure Reloaded (s : LiveContent) (ks : List ContentKit) (t : LiveContent)
    (report : LoadReport) : Prop where
  node?_of_wellRooted : ∀ k, WellRooted s.view ks k →
    ∃ type, s.view.type? k.contentTypeId = some type ∧
      t.view.node? k.id = some (.ofKit k type (ContentKit.idsUnder (wellRooted s.view ks) k.id))
  exists_of_node? : ∀ x n, t.view.node? x = some n → ∃ k, WellRooted s.view ks k ∧ k.id = x
  mem_roots_iff : ∀ x, x ∈ t.view.roots ↔
    ∃ k, WellRooted s.view ks k ∧ k.id = x ∧ k.parentId = none
  mem_nodesOf_iff : ∀ u x, x ∈ t.index.nodesOf u ↔
    ∃ k, WellRooted s.view ks k ∧ k.id = x ∧ k.contentTypeId = u
  typeTables_eq : t.typeTables = s.typeTables
  applied_eq : report.applied = ks.countP fun k ↦ WellRooted s.view ks k
  skipped_eq : report.skipped = ks.countP fun k ↦ ¬WellRooted s.view ks k
  missingContentType_eq : report.missingContentType = ks.countP fun k ↦ Untyped s.view k
  missingParent_eq : report.missingParent = ks.countP fun k ↦ Orphaned s.view ks k

theorem node?_emptied (s : LiveContent) (x : ContentId) : (emptied s).view.node? x = none :=
  Std.ExtTreeMap.getElem?_empty

theorem Sound.emptied (h : s.Sound) : (emptied s).Sound := sound_invariant.clearTree h

open Classical in
/-- In a tree without nodes a kit fits by its turn exactly if it is well-rooted. -/
theorem picks_wellRooted (s : LiveContent) (hlevels : ContentKit.Leveled ks) :
    Picks (emptied s).view (fun k ↦ WellRooted s.view ks k) (ks.mergeSort levelLE) := by
  intro done k rest hsorted
  have hk : k ∈ ks := List.mem_mergeSort.mp (hsorted ▸ List.mem_append_cons_self)
  rw [decide_eq_true_iff]
  constructor
  · intro hrooted
    refine ⟨hrooted.payload, hrooted.typed, fun q hq ↦ Or.inr ?_⟩
    cases hrooted with
    | top _ _ _ hparent => simp [hq] at hparent
    | @under _ p _ _ _ hparent hp =>
      have hdone := mem_of_level_lt hsorted hp.mem (hlevels k hk p hp.mem hparent)
      exact ⟨p, List.mem_filter.mpr ⟨hdone, decide_eq_true hp⟩,
        Option.some.inj (hparent.symm.trans hq)⟩
  · rintro ⟨hpayload, htyped, hfits⟩
    cases hparent : k.parentId with
    | none => exact .top hk hpayload htyped hparent
    | some q =>
      obtain ⟨n, hn⟩ | ⟨d, hd, rfl⟩ := hfits q hparent
      · rw [node?_emptied] at hn
        contradiction
      · exact .under hk hpayload htyped hparent (of_decide_eq_true (List.mem_filter.mp hd).2)

open Classical in
theorem Sound.grown_setAll (h : s.Sound) (hnodup : (ks.map ContentKit.id).Nodup)
    (hlevels : ContentKit.Leveled ks) :
    (Edit.emptied s).Grown (wellRooted s.view ks) (Edit.setAll s ks).1 ∧
      (Edit.setAll s ks).2 = LoadReport.on s.view (fun k ↦ WellRooted s.view ks k) ks :=
  h.emptied.grown_setOrdered (picks_wellRooted s hlevels) hnodup
    (fun k _ ↦ node?_emptied s k.id)
    fun k hk hself ↦ UInt32.lt_irrefl _ (hlevels k hk k hk hself)

theorem Sound.reloaded_setAll (h : s.Sound) (hnodup : (ks.map ContentKit.id).Nodup)
    (hlevels : ContentKit.Leveled ks) :
    s.Reloaded ks (Edit.setAll s ks).1 (Edit.setAll s ks).2 := by
  classical
  obtain ⟨hgrown, hreport⟩ := h.grown_setAll hnodup hlevels
  exact {
    node?_of_wellRooted := fun k hk ↦ hgrown.node?_new k (mem_wellRooted.mpr hk)
    exists_of_node? := by
      intro x n hn
      obtain ⟨m, hm⟩ | ⟨k, hk, heq⟩ := hgrown.exists_node?_iff.mp ⟨n, hn⟩
      · rw [node?_emptied] at hm
        contradiction
      · exact ⟨k, mem_wellRooted.mp hk, heq⟩
    mem_roots_iff := by
      intro x
      have hnone : x ∉ (Edit.emptied s).view.roots := Std.ExtTreeMap.not_mem_empty
      simp only [hgrown.mem_roots_iff, hnone, false_or, mem_wellRooted]
    mem_nodesOf_iff := by
      intro u x
      have hnone : x ∉ (Edit.emptied s).index.nodesOf u := by
        rw [show (Edit.emptied s).index = TypeIndex.empty from rfl, TypeIndex.nodesOf_empty]
        exact List.not_mem_nil
      simp only [hgrown.mem_nodesOf_iff, hnone, false_or, mem_wellRooted]
    typeTables_eq := hgrown.typeTables_eq
    applied_eq := by rw [hreport]; rfl
    skipped_eq := by
      rw [hreport]
      refine List.countP_congr fun k _ ↦ ?_
      simp
    missingContentType_eq := by
      rw [hreport]
      refine List.countP_congr fun k _ ↦ ?_
      rw [decide_eq_true_iff, Untyped]
      simp
    missingParent_eq := by
      rw [hreport]
      refine List.countP_congr fun k hk ↦ ?_
      rw [decide_eq_true_iff, orphaned_iff hk]
      simp [Option.isSome_iff_exists, and_assoc] }

/-! ### The order of the kits -/

/-- Loads with the same well-rooted kits leave the same nodes but for their children. -/
theorem Reloaded.map_childless_node? {u : LiveContent} {first second : LoadReport}
    (h : s.Reloaded ks t first) (hperm : ks.Perm others) (hother : s.Reloaded others u second)
    (x : ContentId) :
    (t.view.node? x).map ContentNode.childless = (u.view.node? x).map ContentNode.childless := by
  by_cases hx : ∃ k, WellRooted s.view ks k ∧ k.id = x
  · obtain ⟨k, hk, rfl⟩ := hx
    obtain ⟨type, htype, hnode⟩ := h.node?_of_wellRooted k hk
    obtain ⟨type', htype', hnode'⟩ := hother.node?_of_wellRooted k (hk.perm hperm)
    obtain rfl := Option.some.inj (htype.symm.trans htype')
    rw [hnode, hnode']
    rfl
  · have hfirst : t.view.node? x = none :=
      Option.eq_none_iff_forall_ne_some.mpr fun n hn ↦ hx (h.exists_of_node? x n hn)
    have hsecond : u.view.node? x = none := Option.eq_none_iff_forall_ne_some.mpr fun n hn ↦ by
      obtain ⟨k, hk, heq⟩ := hother.exists_of_node? x n hn
      exact hx ⟨k, hk.perm hperm.symm, heq⟩
    rw [hfirst, hsecond]

/-- The order in which a load has its kits makes no difference to the report, and to the tree none
but in the stored order of children. -/
theorem Sound.setAll_perm (h : s.Sound) (hnodup : (ks.map ContentKit.id).Nodup)
    (hlevels : ContentKit.Leveled ks) (hperm : ks.Perm others) :
    (Edit.setAll s others).2 = (Edit.setAll s ks).2 ∧
      (Edit.setAll s ks).1.view.SameButChildOrder (Edit.setAll s others).1.view := by
  classical
  have hnodup' : (others.map ContentKit.id).Nodup := (hperm.map _).nodup_iff.mp hnodup
  have hlevels' : ContentKit.Leveled others := fun k hk p hp ↦
    hlevels k (hperm.mem_iff.mpr hk) p (hperm.mem_iff.mpr hp)
  have hpicked : (fun k ↦ decide (WellRooted s.view others k)) =
      fun k ↦ decide (WellRooted s.view ks k) :=
    funext fun k ↦ decide_eq_decide.mpr (wellRooted_perm_iff hperm.symm)
  constructor
  · rw [(h.grown_setAll hnodup' hlevels').2, (h.grown_setAll hnodup hlevels).2, hpicked]
    exact (LoadReport.on_perm hperm).symm
  · have hlinked : ∀ ks, (Edit.setAll s ks).1.view.Linked := fun ks ↦
      (sound_invariant.run h (.setAll ks)).grounded.linked
    have hfirst := h.reloaded_setAll hnodup hlevels
    have hsecond := h.reloaded_setAll hnodup' hlevels'
    exact (hlinked ks).sameButChildOrder (hfirst.map_childless_node? hperm hsecond) (hlinked others)

end LiveContent

/-! ### Loads of a store -/

/-- Replaces the whole tree in a section of its own. -/
def ContentStore.loadAll (s : ContentStore) (ks : List ContentKit) : ContentStore × LoadReport :=
  s.write (·.setAll ks)

namespace RecordedStore

variable {r : RecordedStore} {kind : ItemKind} {options : StoreOptions} {ks : List ContentKit}

/-- A load is a section with one operation, and a snapshot after it shows what the load left. -/
theorem Reachable.loadAll (hr : Reachable kind options r) (hclosed : r.clock.writing = false)
    (ks : List ContentKit) :
    (r.store.loadAll ks).1.live = (Edit.setAll r.store.live ks).1 ∧
      (r.store.loadAll ks).2 = (Edit.setAll r.store.live ks).2 ∧
      (r.store.loadAll ks).1.shown = (r.store.loadAll ks).1.live.view := by
  let opened : RecordedStore := { r with store := r.store.openSection }
  have hopened : Reachable kind options opened := hr.step (.openSection hclosed)
  have hwriting : opened.clock.writing = true := Clock.writing_openSection r.clock
  obtain ⟨-, hlive, hanswer, -⟩ :=
    ContentStore.perform_follows hopened.faithful.headsLE (.setAll ks)
  have hloaded := (hopened.faithful.perform hwriting (.setAll ks)).closeSection
  exact ⟨hlive, WriterAnswer.loaded.inj hanswer, hloaded.shown_eq_live rfl⟩

/-- A load of kits with different ids, each at a level below that of its parent where the list has
it, applies exactly the well-rooted ones, in every state of a run and in every state that an
operation passes through there. In which order the list has the kits makes no difference to the
report, and a snapshot taken after the load shows the same in all its reads but for the order in
which nodes keep their children. -/
theorem Reachable.reloaded (hr : Reachable kind options r)
    (hnodup : (ks.map ContentKit.id).Nodup) (hlevels : ContentKit.Leveled ks) :
    (∀ l, Edits r.store.live l → l.Reloaded ks (Edit.setAll l ks).1 (Edit.setAll l ks).2) ∧
      (r.clock.writing = false →
        r.store.live.Reloaded ks (r.store.loadAll ks).1.live (r.store.loadAll ks).2 ∧
          (r.store.loadAll ks).1.shown = (r.store.loadAll ks).1.live.view ∧
          ∀ others, ks.Perm others → (r.store.loadAll others).2 = (r.store.loadAll ks).2 ∧
            (r.store.loadAll ks).1.shown.SameButChildOrder (r.store.loadAll others).1.shown) := by
  have hsound := (hr.keeps LiveContent.sound_invariant LiveContent.sound_empty).1
  refine ⟨fun l hedits ↦ ?_, fun hclosed ↦ ?_⟩
  · exact (LiveContent.sound_invariant.edits hsound hedits).reloaded_setAll hnodup hlevels
  obtain ⟨hlive, hreport, hshown⟩ := hr.loadAll hclosed ks
  refine ⟨?_, hshown, fun others hperm ↦ ?_⟩
  · rw [hlive, hreport]
    exact hsound.reloaded_setAll hnodup hlevels
  · obtain ⟨hlive', hreport', hshown'⟩ := hr.loadAll hclosed others
    rw [hreport, hreport', hshown, hshown', hlive, hlive']
    exact hsound.setAll_perm hnodup hlevels hperm

/-- The pinned page, one of a type that is not defined, one without payload, two pages below the
first one and one below a page that is not there. -/
def sitePages : List ContentKit :=
  [page, { page with id := ⟨5⟩, contentTypeId := ⟨7⟩ }, { page with id := ⟨6⟩, published := none },
    { page with id := ⟨2⟩, parentId := some ⟨1⟩, level := 2 },
    { page with id := ⟨3⟩, parentId := some ⟨1⟩, level := 2 },
    { page with id := ⟨4⟩, parentId := some ⟨9⟩, level := 2 }]

/-- Three of the pages are applied, also when they are listed in reverse, and a snapshot shows the
same then but for the order of children. -/
theorem Reachable.reloaded_sitePages :
    (pagePinned.store.loadAll sitePages).2 = ⟨3, 3, 1, 1⟩ ∧
      (pagePinned.store.loadAll sitePages.reverse).2 = ⟨3, 3, 1, 1⟩ ∧
      (pagePinned.store.loadAll sitePages).1.shown.node? ⟨1⟩ =
        some (.ofKit page pageType [⟨2⟩, ⟨3⟩]) ∧
      (pagePinned.store.loadAll sitePages).1.shown.SameButChildOrder
        (pagePinned.store.loadAll sitePages.reverse).1.shown := by
  have hnodup : (sitePages.map ContentKit.id).Nodup := by decide
  obtain ⟨-, hload⟩ := reachable_pagePinned.reloaded hnodup (by decide)
  obtain ⟨-, hshown, hperm⟩ := hload rfl
  obtain ⟨hreport, hsame⟩ := hperm sitePages.reverse sitePages.reverse_perm.symm
  have heach : Edit.setAll pagePinned.store.live sitePages =
      Edit.setEach (Edit.emptied pagePinned.store.live) sitePages :=
    Edit.setOrdered_of_pairwise _ (by decide)
  obtain ⟨hlive, hanswer, -⟩ := reachable_pagePinned.loadAll rfl sitePages
  have hthree : (pagePinned.store.loadAll sitePages).2 = ⟨3, 3, 1, 1⟩ := by
    rw [hanswer, heach]
    decide +kernel
  refine ⟨hthree, hreport.trans hthree, ?_, hsame⟩
  rw [hshown, hlive, heach]
  decide +kernel

end RecordedStore

/-! ### What there was before -/

namespace LiveContent

/-- Two states with the same tree: the same nodes, each with its children in the same order, the
same roots and the same index, over the same content types by id. -/
structure SameTree (s t : LiveContent) : Prop where
  nodes_eq : s.view.nodes = t.view.nodes
  roots_eq : s.view.roots = t.view.roots
  index_eq : s.index = t.index
  types_eq : s.view.types = t.view.types

/-- Reads and writes of the tree do not tell states with the same tree apart. -/
theorem simulation_sameTree : DraftSimulation .unchanged SameTree where
  node? h id := (congrArg (·[id]?) h.nodes_eq.symm).trans Option.map_id'.symm
  setNode h id n :=
    ⟨congrArg (·.insert id n) h.nodes_eq, h.roots_eq, h.index_eq, h.types_eq⟩
  clearNode h id := ⟨congrArg (·.erase id) h.nodes_eq, h.roots_eq, h.index_eq, h.types_eq⟩
  setRoot h id := ⟨h.nodes_eq, congrArg (·.insert id ()) h.roots_eq, h.index_eq, h.types_eq⟩
  clearRoot h id := ⟨h.nodes_eq, congrArg (·.erase id) h.roots_eq, h.index_eq, h.types_eq⟩
  clearTree h := ⟨rfl, rfl, h.index_eq, h.types_eq⟩
  type? h id := congrArg (·[id]?) h.types_eq
  setType h id type :=
    ⟨h.nodes_eq, h.roots_eq, h.index_eq, congrArg (·.insert id type) h.types_eq⟩
  clearType h id := ⟨h.nodes_eq, h.roots_eq, h.index_eq, congrArg (·.erase id) h.types_eq⟩
  types h := congrArg Std.ExtTreeMap.values h.types_eq
  setHandle h _ _ := ⟨h.nodes_eq, h.roots_eq, h.index_eq, h.types_eq⟩
  clearHandle h _ := ⟨h.nodes_eq, h.roots_eq, h.index_eq, h.types_eq⟩
  index h := h.index_eq
  setIndex h _ := ⟨h.nodes_eq, h.roots_eq, rfl, h.types_eq⟩

/-- A load of any kits looks at the content types only. -/
theorem agree_setAll {s t : LiveContent} (htypes : ∀ id, s.view.type? id = t.view.type? id)
    (ks : List ContentKit) : Agree SameTree (Edit.setAll s ks) (Edit.setAll t ks) := by
  have hemptied : SameTree (Edit.emptied s) (Edit.emptied t) :=
    ⟨rfl, rfl, rfl, Std.ExtTreeMap.ext_getElem? htypes⟩
  have hagree := simulation_sameTree.setOrdered hemptied ks
  rwa [DraftChange.kit_unchanged, List.map_id] at hagree

end LiveContent

namespace RecordedStore

variable {r u : RecordedStore} {kind other : ItemKind} {options others : StoreOptions}

/-- A load forgets what there was. In states of any two runs whose content types by id are the same,
a load of any kits gives the same report and leaves the same tree, whatever was there before. -/
theorem Reachable.setAll_sameTree (hr : Reachable kind options r) (hu : Reachable other others u)
    (htypes : ∀ id, r.store.live.view.type? id = u.store.live.view.type? id)
    (ks : List ContentKit) :
    (r.store.setAll ks).2 = (u.store.setAll ks).2 ∧
      (r.store.setAll ks).1.live.SameTree (u.store.setAll ks).1.live := by
  obtain ⟨-, hlive, hanswer, -⟩ := ContentStore.perform_follows hr.faithful.headsLE (.setAll ks)
  obtain ⟨-, hlive', hanswer', -⟩ := ContentStore.perform_follows hu.faithful.headsLE (.setAll ks)
  obtain ⟨htree, hreport⟩ := LiveContent.agree_setAll htypes ks
  have hstate : (r.store.setAll ks).1.live = (Edit.setAll r.store.live ks).1 := hlive
  have hstate' : (u.store.setAll ks).1.live = (Edit.setAll u.store.live ks).1 := hlive'
  rw [hstate, hstate', show (r.store.setAll ks).2 = _ from WriterAnswer.loaded.inj hanswer,
    show (u.store.setAll ks).2 = _ from WriterAnswer.loaded.inj hanswer']
  exact ⟨hreport, htree⟩

/-- Kits that a load has to sort out: a page twice, one under itself, two under each other, one
below the first page and that page once more below it, and one without payload. -/
def unrulyPages : List ContentKit :=
  [page, page.withSortOrder 3, { page with id := ⟨2⟩, parentId := some ⟨2⟩ },
    { page with id := ⟨3⟩, parentId := some ⟨4⟩, level := 2 },
    { page with id := ⟨4⟩, parentId := some ⟨3⟩, level := 3 },
    { page with id := ⟨5⟩, parentId := some ⟨1⟩, level := 4 },
    { page with parentId := some ⟨5⟩, level := 5 },
    { page with id := ⟨6⟩, published := none, level := 6 }]

/-- The store from which the page was removed, with a third section open. -/
def pageReopened : RecordedStore :=
  { pageRemoved with store := pageRemoved.store.openSection }

/-- A load of the unruly kits does the same to a store with two pages and to one that keeps the page
for a pin only. -/
theorem Reachable.setAll_sameTree_pageReopened :
    pageExtended.store.live.view.nodes.size = 2 ∧ pageReopened.store.live.view.nodes.size = 0 ∧
      (pageExtended.store.setAll unrulyPages).2 = ⟨3, 5, 2, 0⟩ ∧
      (pageReopened.store.setAll unrulyPages).2 = ⟨3, 5, 2, 0⟩ ∧
      (pageExtended.store.setAll unrulyPages).1.live.SameTree
        (pageReopened.store.setAll unrulyPages).1.live := by
  have hreopened : Reachable .content StoreOptions.default pageReopened :=
    reachable_pageRemoved.step (.openSection rfl)
  have htypes : pageExtended.store.live.view.types = pageReopened.store.live.view.types :=
    Std.ExtTreeMap.toList_inj.mp (by decide +kernel)
  obtain ⟨hreport, htree⟩ := reachable_pageExtended.setAll_sameTree hreopened
    (fun id ↦ congrArg (·[id]?) htypes) unrulyPages
  have heach : Edit.setAll pageExtended.store.writer unrulyPages =
      Edit.setEach (Edit.emptied pageExtended.store.writer) unrulyPages :=
    Edit.setOrdered_of_pairwise _ (by decide)
  have hthree : (pageExtended.store.setAll unrulyPages).2 = ⟨3, 5, 2, 0⟩ := by
    show (Edit.setAll pageExtended.store.writer unrulyPages).2 = _
    rw [heach]
    decide +kernel
  exact ⟨by decide +kernel, by decide +kernel, hthree, hreport ▸ hthree, htree⟩

end RecordedStore

end VersionedContent
