import VersionedContent.Proofs.ChainOrder
import VersionedContent.Proofs.NewSnapshots
import VersionedContent.Proofs.TreeListings

/-!
# Nothing is left behind

Once every handle is released, one more snapshot, released at once, and a collection pass leave no
garbage in a dictionary or a store, whatever its history (`swept_tidy`). The floor reaches the live
generation and the queue of pins is empty, since the pin of the last snapshot is at its back and
none is held; every key that remains has one version, with a value, since pruning at the live
generation keeps the head of a chain only.
-/

set_option autoImplicit false

namespace VersionedContent

/-! ### The clock -/

namespace Clock

variable {c after : Clock}

/-- The floor has reached the live generation, nothing was written since, and no pin is queued. -/
structure CaughtUp (c : Clock) : Prop where
  floor_eq : c.floor = c.live
  dirty_eq : c.dirty = false
  queue_eq : c.queue = []

theorem held_foldl_release {pins : List Pin} (hpins : pins.Perm c.held) :
    (pins.foldl Clock.release c).held = [] := by
  induction pins generalizing c with
  | nil => exact hpins.nil_eq.symm
  | cons p pins ih => exact ih (List.cons_perm_iff_perm_erase.mp hpins).2

theorem writing_foldl_release (c : Clock) (pins : List Pin) :
    (pins.foldl Clock.release c).writing = c.writing :=
  foldl_unchanged (f := Clock.release) Clock.writing (fun _ _ ↦ rfl) pins c

/-- With no handle left, a pass empties the queue and moves the floor to the newest pin. -/
theorem Sound.advanceFloor_of_held_eq_nil (h : c.Sound) (hheld : c.held = []) :
    c.advanceFloor.1.floor = c.newest ∧ c.advanceFloor.1.queue = [] := by
  have hqueue : c.advanceFloor.1.queue = [] := by
    have hall : ∀ p ∈ c.queue, decide (p ∉ c.held) = true := by simp [hheld]
    exact List.dropWhile_eq_nil_iff.mpr hall
  have hsound := h.advanceFloor
  have hlength := hsound.floor_add_length
  have hfloor := hsound.floor_le_newest
  have hnewest : c.advanceFloor.1.newest = c.newest := rfl
  rw [hqueue, hnewest, List.length_nil] at hlength
  rw [hnewest] at hfloor
  exact ⟨by lia, hqueue⟩

namespace IssuesTo

/-- A pass that follows the release of the only handle left catches up. -/
theorem caughtUp (h : c.IssuesTo after) (hsound : c.Sound) (hclosed : c.writing = false)
    (hheld : c.held = []) : (after.release c.issue.2).advanceFloor.1.CaughtUp := by
  have hreleased : (after.release c.issue.2).Sound := (h.sound hsound).release c.issue.2
  have hnone : (after.release c.issue.2).held = [] := by
    rw [release, h.held_eq, hheld, List.erase_cons_head]
  have hnewest : (after.release c.issue.2).newest = after.live :=
    h.newest_eq.trans ((complete_of_closed hclosed).trans h.live_eq.symm)
  have hlive : after.live = (after.release c.issue.2).newest + after.dirty.toNat :=
    hreleased.live_eq
  obtain ⟨hfloor, hqueue⟩ := hreleased.advanceFloor_of_held_eq_nil hnone
  refine ⟨hfloor.trans hnewest, ?_, hqueue⟩
  show after.dirty = false
  rw [hnewest] at hlive
  exact Bool.toNat_eq_zero.mp (by lia)

end IssuesTo

end Clock

/-! ### The tables -/

theorem Chain.pruned_eq_single {α : Type} {c : Chain α} {floor : Generation}
    (hle : c.head.generation ≤ floor) :
    c.pruned floor = single c.head.generation c.head.value := by
  have hnot : ¬decide (floor < c.head.generation) = true := by simpa using hle
  have habove : c.above floor = [] := List.takeWhile_cons_of_neg hnot
  have hbelow : c.below floor = c.versions := List.dropWhile_cons_of_neg hnot
  have hversions := versions_pruned c floor
  rw [habove, hbelow, List.nil_append] at hversions
  obtain ⟨hhead, holder⟩ := List.cons.inj hversions
  calc c.pruned floor = ⟨(c.pruned floor).head, (c.pruned floor).older⟩ := rfl
    _ = single c.head.generation c.head.value := by rw [hhead, holder]; rfl

namespace VersionMap

variable {κ α : Type} [Ord κ] [Std.TransOrd κ]
variable {m : VersionMap κ α} {floor generation : Generation}

/-- Every key has exactly one version, and that has a value. -/
def Compact (m : VersionMap κ α) : Prop :=
  ∀ (key : κ) (c : Chain α), m.chains[key]? = some c →
    ∃ generation value, c = Chain.single generation (some value)

/-- A generation that no version is newer than sees every key of a compact table. -/
theorem Compact.size_viewAt (h : m.Compact) (hheads : m.HeadsLE generation) :
    (m.viewAt generation).size = m.size := by
  refine Std.ExtTreeMap.size_filterMap_eq_size_iff.mpr fun key hkey ↦ ?_
  have hc : m.chains[key]? = some m.chains[key] := Std.ExtTreeMap.getElem?_eq_some_getElem hkey
  obtain ⟨written, value, hsingle⟩ := h key _ hc
  have hle : written ≤ generation := by
    have hhead := hheads key _ hc
    rwa [hsingle] at hhead
  rw [hsingle, Chain.get?_single, if_pos hle, Option.isSome_some]

/-- Pruning at a generation that no version is newer than keeps one version of every key that has a
value. -/
theorem compact_prune [Std.LawfulEqOrd κ] (h : m.HeadsLE floor) : (m.prune floor).Compact := by
  intro key c hc
  rw [prune, Std.ExtTreeMap.getElem?_filterMap'] at hc
  obtain ⟨old, hold, hkept⟩ := Option.bind_eq_some_iff.mp hc
  have hle := h key old hold
  rw [Chain.pruned_eq_single hle] at hkept
  split_ifs at hkept with hdead
  cases hvalue : old.head.value with
  | none =>
    rw [hvalue] at hdead
    exact absurd (by simp [Chain.isDead, Chain.isStandaloneAbsent, Chain.single, hle]) hdead
  | some value => exact ⟨old.head.generation, value, hvalue ▸ (Option.some.inj hkept).symm⟩

end VersionMap

/-- Every key of every table has exactly one version, and that has a value. -/
structure ContentHistory.Compact (h : ContentHistory) : Prop where
  nodes : h.nodes.Compact
  roots : h.roots.Compact
  types : h.types.Compact
  typesByHandle : h.typesByHandle.Compact

theorem ContentHistory.compact_prune {h : ContentHistory} {floor : Generation}
    (hheads : h.HeadsLE floor) : (h.prune floor).Compact :=
  ⟨VersionMap.compact_prune hheads.nodes, VersionMap.compact_prune hheads.roots,
    VersionMap.compact_prune hheads.types, VersionMap.compact_prune hheads.typesByHandle⟩

/-! ### Dictionaries -/

section Dictionaries

variable {κ α : Type} [Ord κ] [Std.TransOrd κ]

namespace Dictionary

/-- Gives up handles one after another. -/
def releaseEach (d : Dictionary κ α) (handles : List Pin) : Dictionary κ α :=
  handles.foldl release d

/-- Takes a snapshot and gives it up at once. -/
def touch (d : Dictionary κ α) : Dictionary κ α × Pin :=
  let (d, pin) := d.snapshot
  (d.release pin, pin)

/-- Gives up handles, takes a snapshot and gives it up at once, and runs a collection pass. -/
def swept (d : Dictionary κ α) (handles : List Pin) : Dictionary κ α :=
  (d.releaseEach handles).touch.1.collect.1

/-- No garbage is left: the clock has caught up, every key has one version, with a value, and there
are as many keys as a new snapshot shows. -/
structure Tidy (d : Dictionary κ α) : Prop where
  caughtUp : d.clock.CaughtUp
  compact : d.items.Compact
  count_eq : d.count = (d.snapshot.1.keys d.snapshot.2.generation).length

omit [Std.TransOrd κ] in
theorem clock_releaseEach (d : Dictionary κ α) (handles : List Pin) :
    (d.releaseEach handles).clock = handles.foldl Clock.release d.clock :=
  (List.foldl_hom (f := Dictionary.clock) fun _ _ ↦ rfl).symm

end Dictionary

namespace RecordedDictionary

variable {r u : RecordedDictionary κ α} {options : StoreOptions} {handles : List Pin}

theorem Reachable.step (hr : Reachable options r) (hstep : Step r u) : Reachable options u := by
  obtain ⟨d, hd, hsteps⟩ := hr
  exact ⟨d, hd, hsteps.tail hstep⟩

theorem Reachable.releaseEach (hr : Reachable options r) (hhandles : handles.Perm r.clock.held) :
    Reachable options { r with dictionary := r.dictionary.releaseEach handles } := by
  induction handles generalizing r with
  | nil => exact hr
  | cons p handles ih =>
    obtain ⟨hheld, hrest⟩ := List.cons_perm_iff_perm_erase.mp hhandles
    exact ih (hr.step (.release hheld)) hrest

theorem Reachable.touch (hr : Reachable options r) :
    Reachable options { r with dictionary := r.dictionary.touch.1 } :=
  (hr.step .snapshot).step (.release r.dictionary.issuesTo_snapshot.issue_mem_held)

variable [Std.LawfulEqOrd κ]

/-- With no section open, a new snapshot shows what the live generation sees. -/
theorem Faithful.viewAt_snapshot (h : r.Faithful) (hclosed : r.clock.writing = false) :
    r.dictionary.snapshot.1.items.viewAt r.dictionary.snapshot.2.generation =
      r.dictionary.items.viewAt r.clock.live := by
  have hissues := r.dictionary.issuesTo_snapshot
  have hafter : Faithful { r with dictionary := r.dictionary.snapshot.1 } := h.step .snapshot
  have hgeneration : r.dictionary.snapshot.2.generation = r.clock.live :=
    (Clock.generation_issue r.clock).trans (Clock.complete_of_closed hclosed)
  have hfloor := hafter.sound.floor_le_of_mem_held hissues.issue_mem_held
  have hlive : r.clock.floor ≤ r.clock.live :=
    Nat.le_trans h.sound.floor_le_newest h.sound.newest_le_live
  calc r.dictionary.snapshot.1.items.viewAt r.dictionary.snapshot.2.generation
      = r.plainAt r.dictionary.snapshot.2.generation := hafter.viewAt_eq _ hfloor
    _ = r.plainAt r.clock.live := by rw [hgeneration]
    _ = r.dictionary.items.viewAt r.clock.live := (h.viewAt_eq _ hlive).symm

/-- A pass that lets the clock catch up leaves no garbage. -/
theorem Reachable.tidy_collect (hr : Reachable options r) (hclosed : r.clock.writing = false)
    (hcaughtUp : r.clock.advanceFloor.1.CaughtUp) : r.dictionary.collect.1.Tidy := by
  have hheads : r.dictionary.items.HeadsLE r.clock.advanceFloor.1.floor := by
    rw [hcaughtUp.floor_eq]
    exact hr.faithful.headsLE
  have hcompact : r.dictionary.collect.1.items.Compact := VersionMap.compact_prune hheads
  have hafter := (hr.step .collect).faithful
  refine ⟨hcaughtUp, hcompact, ?_⟩
  have hview : r.dictionary.collect.1.snapshot.1.items.viewAt
      r.dictionary.collect.1.snapshot.2.generation =
        r.dictionary.collect.1.items.viewAt r.clock.live := hafter.viewAt_snapshot hclosed
  have hheads : r.dictionary.collect.1.items.HeadsLE r.clock.live := hafter.headsLE
  rw [Dictionary.keys, Dictionary.entries, hview, List.length_map, Std.ExtTreeMap.length_toList]
  exact (hcompact.size_viewAt hheads).symm

theorem Reachable.tidy_swept (hr : Reachable options r) (hclosed : r.clock.writing = false)
    (hhandles : handles.Perm r.clock.held) : (r.dictionary.swept handles).Tidy := by
  have hreleased := hr.releaseEach hhandles
  have hissues := (r.dictionary.releaseEach handles).issuesTo_snapshot
  have hheld : (r.dictionary.releaseEach handles).clock.held = [] := by
    rw [Dictionary.clock_releaseEach]
    exact Clock.held_foldl_release hhandles
  have hwriting : (r.dictionary.releaseEach handles).clock.writing = false := by
    rw [Dictionary.clock_releaseEach, Clock.writing_foldl_release]
    exact hclosed
  exact hreleased.touch.tidy_collect (hissues.writing_eq.trans hwriting)
    (hissues.caughtUp hreleased.faithful.sound hwriting hheld)

end RecordedDictionary

end Dictionaries

/-! ### Stores -/

theorem ContentView.length_all (v : ContentView) : v.all.length = v.nodes.size := by
  rw [all, List.length_mergeSort, values_eq_map_snd, List.length_map, Std.ExtTreeMap.length_toList]

theorem ContentView.length_allTypes (v : ContentView) : v.allTypes.length = v.types.size := by
  rw [allTypes, values_eq_map_snd, List.length_map, Std.ExtTreeMap.length_toList]

/-- Every root of a linked tree is a node. -/
theorem ContentView.Linked.length_atRoot {v : ContentView} (h : v.Linked) :
    v.atRoot.length = v.roots.size := by
  rw [atRoot, List.length_mergeSort, ← Std.ExtTreeMap.length_keys, List.length_filterMap_eq_countP,
    List.countP_eq_length]
  intro id hid
  rw [Std.ExtTreeMap.mem_keys, h.mem_roots_iff] at hid
  obtain ⟨n, hn⟩ := exists_node?_of_linkOf hid
  exact Option.isSome_of_eq_some hn

namespace ContentStore

/-- Gives up handles one after another. -/
def releaseEach (s : ContentStore) (handles : List Pin) : ContentStore := handles.foldl release s

/-- Gives up handles, takes a snapshot and gives it up at once, and runs a collection pass. -/
def swept (s : ContentStore) (handles : List Pin) : ContentStore :=
  (s.releaseEach handles).touch.1.collect.1

/-- The tables that a new snapshot shows. -/
def shown (s : ContentStore) : ContentView := s.snapshot.1.viewAt s.snapshot.2.generation

/-- No garbage is left: the clock has caught up, every key of every table has one version, with a
value, and there are as many nodes, roots and content types as a new snapshot shows. -/
structure Tidy (s : ContentStore) : Prop where
  caughtUp : s.clock.CaughtUp
  compact : s.history.Compact
  count_eq : s.count = s.shown.all.length
  rootKeys_eq : s.stats.rootKeys = s.shown.atRoot.length
  contentTypeKeys_eq : s.stats.contentTypeKeys = s.shown.allTypes.length

theorem clock_releaseEach (s : ContentStore) (handles : List Pin) :
    (s.releaseEach handles).clock = handles.foldl Clock.release s.clock :=
  (List.foldl_hom (f := ContentStore.clock) fun _ _ ↦ rfl).symm

end ContentStore

namespace RecordedStore

variable {r u : RecordedStore} {kind : ItemKind} {options : StoreOptions} {handles : List Pin}

theorem Reachable.step (hr : Reachable kind options r) (hstep : Step r u) :
    Reachable kind options u := by
  obtain ⟨s, hs, hsteps⟩ := hr
  exact ⟨s, hs, hsteps.tail hstep⟩

theorem Reachable.releaseEach (hr : Reachable kind options r)
    (hhandles : handles.Perm r.clock.held) :
    Reachable kind options { r with store := r.store.releaseEach handles } := by
  induction handles generalizing r with
  | nil => exact hr
  | cons p handles ih =>
    obtain ⟨hheld, hrest⟩ := List.cons_perm_iff_perm_erase.mp hhandles
    exact ih (hr.step (.release hheld)) hrest

theorem Reachable.touch (hr : Reachable kind options r) :
    Reachable kind options { r with store := r.store.touch.1 } :=
  (hr.step .snapshot).step (.release r.store.issuesTo_snapshot.issue_mem_held)

/-- With no section open, a new snapshot shows what the live generation sees. -/
theorem Faithful.shown_eq (h : r.Faithful) (hclosed : r.clock.writing = false) :
    r.store.shown = r.store.viewAt r.clock.live := by
  have hafter : Faithful { r with store := r.store.snapshot.1 } := h.step .snapshot
  have hgeneration : r.store.snapshot.2.generation = r.clock.live :=
    (Clock.generation_issue r.clock).trans (Clock.complete_of_closed hclosed)
  have hlive : r.clock.floor ≤ r.clock.live :=
    Nat.le_trans h.sound.floor_le_newest h.sound.newest_le_live
  calc r.store.shown = r.viewAsOf r.store.snapshot.2.generation :=
        hafter.viewAt_of_mem_held r.store.issuesTo_snapshot.issue_mem_held
    _ = r.viewAsOf r.clock.live := by rw [hgeneration]
    _ = r.store.viewAt r.clock.live := (h.viewAt_eq _ hlive fun hopen ↦ by
        rw [hclosed] at hopen
        contradiction).symm

/-- With no section open, a new snapshot shows what the writer sees. -/
theorem Faithful.shown_eq_live (h : r.Faithful) (hclosed : r.clock.writing = false) :
    r.store.shown = r.store.live.view :=
  (h.shown_eq hclosed).trans (ContentHistory.viewAt_eq_liveView h.headsLE (Nat.le_refl _))

theorem Reachable.linked_shown (hr : Reachable kind options r) : r.store.shown.Linked := by
  obtain ⟨l, hlinked, hview⟩ := (hr.step .snapshot).keeps_of_mem_held ContentView.linked_invariant
    ContentView.linked_empty r.store.issuesTo_snapshot.issue_mem_held
  have hview : l.view = r.store.shown := hview
  exact hview ▸ hlinked

/-- A pass that lets the clock catch up leaves no garbage. -/
theorem Reachable.tidy_collect (hr : Reachable kind options r) (hclosed : r.clock.writing = false)
    (hcaughtUp : r.clock.advanceFloor.1.CaughtUp) : r.store.collect.1.Tidy := by
  have hheads : r.store.history.HeadsLE r.clock.advanceFloor.1.floor := by
    rw [hcaughtUp.floor_eq]
    exact hr.faithful.headsLE
  have hcompact : r.store.collect.1.history.Compact := ContentHistory.compact_prune hheads
  have hcollected := hr.step .collect
  have hheads : r.store.collect.1.history.HeadsLE r.clock.live := hcollected.faithful.headsLE
  have hshown : r.store.collect.1.shown = r.store.collect.1.history.viewAt r.clock.live :=
    hcollected.faithful.shown_eq hclosed
  refine ⟨hcaughtUp, hcompact, ?_, ?_, ?_⟩
  · rw [ContentView.length_all, hshown]
    exact (hcompact.nodes.size_viewAt hheads.nodes).symm
  · rw [hcollected.linked_shown.length_atRoot, hshown]
    exact (hcompact.roots.size_viewAt hheads.roots).symm
  · rw [ContentView.length_allTypes, hshown]
    exact (hcompact.types.size_viewAt hheads.types).symm

theorem Reachable.tidy_swept (hr : Reachable kind options r) (hclosed : r.clock.writing = false)
    (hhandles : handles.Perm r.clock.held) : (r.store.swept handles).Tidy := by
  have hreleased := hr.releaseEach hhandles
  have hissues := (r.store.releaseEach handles).issuesTo_snapshot
  have hheld : (r.store.releaseEach handles).clock.held = [] := by
    rw [ContentStore.clock_releaseEach]
    exact Clock.held_foldl_release hhandles
  have hwriting : (r.store.releaseEach handles).clock.writing = false := by
    rw [ContentStore.clock_releaseEach, Clock.writing_foldl_release]
    exact hclosed
  exact hreleased.touch.tidy_collect (hissues.writing_eq.trans hwriting)
    (hissues.caughtUp hreleased.faithful.sound hwriting hheld)

end RecordedStore

/-! ### Both kinds of store -/

/-- From every state of a run with no section open: giving up every handle, in any order, then a
snapshot that is given up at once and a collection pass leave no garbage in a dictionary or a
store. -/
theorem swept_tidy (κ α : Type) [Ord κ] [Std.TransOrd κ] [Std.LawfulEqOrd κ] :
    (∀ options (r : RecordedDictionary κ α), RecordedDictionary.Reachable options r →
      r.clock.writing = false → ∀ handles, handles.Perm r.clock.held →
        (r.dictionary.swept handles).Tidy) ∧
    ∀ kind options r, RecordedStore.Reachable kind options r → r.clock.writing = false →
      ∀ handles, handles.Perm r.clock.held → (r.store.swept handles).Tidy :=
  ⟨fun _ _ hr hclosed _ hhandles ↦ hr.tidy_swept hclosed hhandles,
    fun _ _ _ hr hclosed _ hhandles ↦ hr.tidy_swept hclosed hhandles⟩

/-- A key and a page that were removed while the first of two pins was held are still counted; once
both pins are given up, the older one first, nothing is left of them. -/
theorem swept_tidy_removed :
    [⟨1, 0⟩, ⟨2, 1⟩].Perm RecordedDictionary.keyCleared.clock.held ∧
      [⟨1, 0⟩, ⟨2, 1⟩].Perm RecordedStore.pageRemoved.clock.held ∧
      RecordedDictionary.keyCleared.dictionary.count = 1 ∧
      RecordedStore.pageRemoved.store.count = 1 ∧
      (RecordedDictionary.keyCleared.dictionary.swept [⟨1, 0⟩, ⟨2, 1⟩]).Tidy ∧
      (RecordedStore.pageRemoved.store.swept [⟨1, 0⟩, ⟨2, 1⟩]).Tidy ∧
      (RecordedDictionary.keyCleared.dictionary.swept [⟨1, 0⟩, ⟨2, 1⟩]).count = 0 ∧
      (RecordedStore.pageRemoved.store.swept [⟨1, 0⟩, ⟨2, 1⟩]).count = 0 := by
  have hdictionary : [⟨1, 0⟩, ⟨2, 1⟩].Perm RecordedDictionary.keyCleared.clock.held := by decide
  have hstore : [⟨1, 0⟩, ⟨2, 1⟩].Perm RecordedStore.pageRemoved.clock.held := by decide +kernel
  exact ⟨hdictionary, hstore, by decide +kernel, by decide +kernel,
    (swept_tidy Nat Nat).1 _ _ RecordedDictionary.reachable_keyCleared rfl _ hdictionary,
    (swept_tidy Nat Nat).2 _ _ _ RecordedStore.reachable_pageRemoved rfl _ hstore,
    by decide +kernel, by decide +kernel⟩

end VersionedContent
