import VersionedContent.Proofs.FloorAdvance
import VersionedContent.Proofs.FullRelease
import VersionedContent.Proofs.MappedVersions
import VersionedContent.Proofs.RepeatedPruning

/-!
# What a collection pass does

A pass keeps, of every chain, the versions above the new floor and the newest one at or below it,
and drops the keys whose newest version is a deletion at or below the floor. Its statistics account
for every version and key that goes away and for every version it looked at, and a second pass right
after it finds nothing to do (`collect_exact`). The counts are additive over chains and tables, so
it is enough to account for one chain.
-/

set_option autoImplicit false

namespace VersionedContent

/-! ### One chain -/

namespace Chain

variable {α : Type} {c : Chain α} {floor : Generation}

/-- The chain after pruning, unless only a deletion that no reader needs is left of it. -/
def survivor? (c : Chain α) (floor : Generation) : Option (Chain α) :=
  if (c.pruned floor).isDead floor then none else some (c.pruned floor)

/-- A key goes away exactly when its newest version is a deletion at or below the floor. -/
theorem isDead_pruned_iff :
    (c.pruned floor).isDead floor = true ↔ c.head.value = none ∧ c.head.generation ≤ floor := by
  simp only [isDead, isStandaloneAbsent, head_pruned, Bool.and_eq_true, decide_eq_true_iff,
    Option.isNone_iff_eq_none, List.isEmpty_iff]
  constructor
  · rintro ⟨hle, hnone, -⟩
    exact ⟨hnone, hle⟩
  · rintro ⟨hnone, hle⟩
    refine ⟨hle, hnone, ?_⟩
    rw [pruned_eq_single hle]
    rfl

/-- What two prunings in a row leave of a chain. -/
theorem bind_survivor? (c : Chain α) (first second : Generation) :
    (c.survivor? first).bind (·.survivor? second) = c.survivor? (max first second) := by
  unfold survivor?
  by_cases hdead : (c.pruned first).isDead first = true
  · obtain ⟨hnone, hle⟩ := isDead_pruned_iff.mp hdead
    have hboth : (c.pruned (max first second)).isDead (max first second) = true :=
      isDead_pruned_iff.mpr ⟨hnone, Nat.le_trans hle (Nat.le_max_left _ _)⟩
    rw [if_pos hdead, if_pos hboth, Option.bind_none]
  · have hsame : ((c.pruned first).pruned second).isDead second =
        (c.pruned (max first second)).isDead (max first second) := by
      have hkept : ¬(c.head.value = none ∧ c.head.generation ≤ first) :=
        mt isDead_pruned_iff.mpr hdead
      rw [Bool.eq_iff_iff, isDead_pruned_iff, isDead_pruned_iff, head_pruned]
      refine and_congr_right fun hnone ↦ ?_
      have hnewer : ¬c.head.generation ≤ first := fun hle ↦ hkept ⟨hnone, hle⟩
      lia
    rw [if_neg hdead, Option.bind_some, hsame, pruned_pruned]

theorem length_of_isDead (h : c.isDead floor = true) : c.versions.length = 1 := by
  have hdeletion := (Bool.and_eq_true_iff.mp (Bool.and_eq_true_iff.mp h).2).2
  rw [versions, List.isEmpty_iff.mp hdeletion, List.length_singleton]

/-- The walk along versions in order meets those above the floor, and one more if there is one at or
below it. -/
theorem length_keptBy {versions : List (Version α)}
    (h : versions.Pairwise fun v w ↦ v.generation > w.generation) :
    (keptBy floor versions).length =
      versions.countP (fun v ↦ decide (floor < v.generation)) +
        if versions.any fun v ↦ decide (v.generation ≤ floor) then 1 else 0 := by
  induction versions with
  | nil => rfl
  | cons v older ih =>
    obtain ⟨hnewest, holder⟩ := List.pairwise_cons.mp h
    by_cases hv : v.generation ≤ floor
    · have hnone : older.countP (fun w ↦ decide (floor < w.generation)) = 0 :=
        List.countP_eq_zero.mpr fun w hw ↦ by simpa using (hnewest w hw).le.trans hv
      simp [keptBy, hv, Nat.not_lt.mpr hv, hnone]
    · simp [keptBy, hv, Nat.not_le.mp hv, ih holder, Nat.add_right_comm]

theorem examined_tally (h : c.generations.Pairwise (· > ·)) (floor : Generation) :
    (c.tally floor).examined =
      c.versions.countP (fun v ↦ decide (floor < v.generation)) +
        if c.versions.any fun v ↦ decide (v.generation ≤ floor) then 1 else 0 := by
  rw [← length_keptBy (List.pairwise_map.mp h), tally_eq_countWalk]
  exact (countWalk_eq floor 0 c.versions).1.trans (Nat.zero_add _)

end Chain

/-! ### Counting -/

/-- Counts of the chains of some tables, as a floor divides their versions. -/
structure Census where
  keys : Nat
  versions : Nat
  /-- Versions above the floor. -/
  above : Nat
  /-- Chains with a version at or below the floor. -/
  reaching : Nat

namespace Census

instance : Add Census :=
  ⟨fun a b ↦
    ⟨a.keys + b.keys, a.versions + b.versions, a.above + b.above, a.reaching + b.reaching⟩⟩

/-- The counts of some chains. -/
def ofChains {α : Type} (chains : List (Chain α)) (floor : Generation) : Census where
  keys := chains.length
  versions := (chains.flatMap Chain.versions).length
  above := (chains.flatMap Chain.versions).countP fun v ↦ decide (floor < v.generation)
  reaching := chains.countP fun c ↦ c.versions.any fun v ↦ decide (v.generation ≤ floor)

/-- What pruning counts for is what the counts before and after it differ by; it looks at the
versions above the floor and at one more of every chain that has one at or below it. -/
structure Accounts (before after : Census) (t : PruneTally) : Prop where
  keys : after.keys + t.removed = before.keys
  versions : after.versions + t.pruned + t.removed = before.versions
  examined : t.examined = before.above + before.reaching

variable {α : Type} {floor : Generation}

theorem ofChains_append (chains more : List (Chain α)) :
    ofChains (chains ++ more) floor = ofChains chains floor + ofChains more floor := by
  simp only [ofChains, List.length_append, List.flatMap_append, List.countP_append]
  rfl

theorem Accounts.add {before after before' after' : Census} {t t' : PruneTally}
    (h : before.Accounts after t) (h' : before'.Accounts after' t') :
    (before + before').Accounts (after + after') (t + t') where
  keys := by
    have hkeys := h.keys
    have hkeys' := h'.keys
    show after.keys + after'.keys + (t.removed + t'.removed) = before.keys + before'.keys
    lia
  versions := by
    have hversions := h.versions
    have hversions' := h'.versions
    show after.versions + after'.versions + (t.pruned + t'.pruned) + (t.removed + t'.removed) =
      before.versions + before'.versions
    lia
  examined := by
    have hexamined := h.examined
    have hexamined' := h'.examined
    show t.examined + t'.examined =
      before.above + before'.above + (before.reaching + before'.reaching)
    lia

/-- The counts of one chain. -/
theorem ofChains_singleton (c : Chain α) :
    ofChains [c] floor =
      ⟨1, c.versions.length, c.versions.countP fun v ↦ decide (floor < v.generation),
        if c.versions.any fun v ↦ decide (v.generation ≤ floor) then 1 else 0⟩ := by
  simp [ofChains, List.countP_singleton]

theorem accounts_singleton {c : Chain α} (h : c.generations.Pairwise (· > ·))
    (floor : Generation) :
    (ofChains [c] floor).Accounts (ofChains (c.survivor? floor).toList floor)
      (c.tally floor) := by
  have hlength := c.length_pruned floor
  have hexamined := Chain.examined_tally h floor
  rw [ofChains_singleton, Chain.survivor?]
  by_cases hdead : (c.pruned floor).isDead floor = true
  · have hone := Chain.length_of_isDead hdead
    have hremoved : (c.tally floor).removed = 1 := if_pos hdead
    rw [if_pos hdead]
    refine ⟨?_, ?_, hexamined⟩
    · show 0 + (c.tally floor).removed = 1
      lia
    · show 0 + (c.tally floor).pruned + (c.tally floor).removed = c.versions.length
      lia
  · have hremoved : (c.tally floor).removed = 0 := if_neg hdead
    rw [if_neg hdead, Option.toList_some, ofChains_singleton]
    refine ⟨?_, ?_, hexamined⟩
    · show 1 + (c.tally floor).removed = 1
      lia
    · show (c.pruned floor).versions.length + (c.tally floor).pruned + (c.tally floor).removed =
        c.versions.length
      lia

/-- Pruning chains one after another is accounted for. -/
theorem accounts_ofChains {chains : List (Chain α)}
    (h : ∀ c ∈ chains, c.generations.Pairwise (· > ·)) :
    (ofChains chains floor).Accounts (ofChains (chains.filterMap (·.survivor? floor)) floor)
      (chains.foldl (fun t c ↦ t + c.tally floor) PruneTally.zero) := by
  induction chains using List.reverseRecOn with
  | nil => exact ⟨rfl, rfl, rfl⟩
  | append_singleton chains c ih =>
    have hchains := ih fun d hd ↦ h d (List.mem_append_left _ hd)
    have hc := accounts_singleton (h c (by simp)) floor
    have hsurvivors : (chains ++ [c]).filterMap (·.survivor? floor) =
        chains.filterMap (·.survivor? floor) ++ (c.survivor? floor).toList := by
      rw [List.filterMap_append]
      cases hc : c.survivor? floor <;> simp [hc]
    rw [hsurvivors, ofChains_append, ofChains_append, List.foldl_append]
    exact hchains.add hc

/-- Pruning that leaves the counts as they were has removed nothing. -/
theorem Accounts.eq_zero_of_same {before after : Census} {t : PruneTally}
    (h : before.Accounts after t) (hsame : after = before) : t.pruned = 0 ∧ t.removed = 0 := by
  subst hsame
  have hkeys := h.keys
  have hversions := h.versions
  lia

end Census

/-! ### One table -/

namespace VersionMap

variable {κ α : Type} [Ord κ] [Std.TransOrd κ] {m : VersionMap κ α} {live floor : Generation}

/-- The counts of a table. -/
def census (m : VersionMap κ α) (floor : Generation) : Census := .ofChains m.chains.values floor

/-- What pruning at a floor makes of a table. -/
structure PrunedTo (m : VersionMap κ α) (floor : Generation) (after : VersionMap κ α) : Prop where
  gone_iff : ∀ (key : κ) (c : Chain α), m.chains[key]? = some c →
    (after.chains[key]? = none ↔ c.head.value = none ∧ c.head.generation ≤ floor)
  kept : ∀ (key : κ) (c d : Chain α), m.chains[key]? = some c → after.chains[key]? = some d →
    d.versions = c.versions.filter (c.Retains floor ·)
  none_new : ∀ key : κ, m.chains[key]? = none → after.chains[key]? = none

theorem values_prune (m : VersionMap κ α) (floor : Generation) :
    (m.prune floor).chains.values = m.chains.values.filterMap (·.survivor? floor) := by
  rw [ContentView.values_eq_map_snd, ContentView.values_eq_map_snd, prune,
    Std.ExtTreeMap.toList_filterMap, List.map_filterMap, List.filterMap_map]
  refine List.filterMap_congr fun p _ ↦ ?_
  show ((p.2.survivor? floor).map fun c ↦ (p.1, c)).map Prod.snd = p.2.survivor? floor
  cases p.2.survivor? floor <;> rfl

theorem tally_eq_foldl_values (m : VersionMap κ α) (floor : Generation) :
    m.tally floor =
      m.chains.values.foldl (fun t c ↦ t + c.tally floor) PruneTally.zero := by
  rw [tally, Std.ExtTreeMap.foldl_eq_foldl_toList, ContentView.values_eq_map_snd, List.foldl_map]

variable [Std.LawfulEqOrd κ]

theorem chains_prune (m : VersionMap κ α) (floor : Generation) (key : κ) :
    (m.prune floor).chains[key]? = m.chains[key]?.bind (·.survivor? floor) :=
  Std.ExtTreeMap.getElem?_filterMap'

theorem InOrder.prunedTo (h : m.InOrder live) (floor : Generation) :
    m.PrunedTo floor (m.prune floor) where
  gone_iff key c hc := by
    rw [chains_prune, hc, Option.bind_some, Chain.survivor?, ← Chain.isDead_pruned_iff]
    split_ifs with hdead <;> simp [hdead]
  kept key c d hc hd := by
    rw [chains_prune, hc, Option.bind_some, Chain.survivor?] at hd
    split_ifs at hd
    rw [← Option.some.inj hd, Chain.versions_pruned_eq_filter (h key c hc).decreasing]
  none_new key hc := by rw [chains_prune, hc, Option.bind_none]

theorem InOrder.accounts (h : m.InOrder live) (floor : Generation) :
    (m.census floor).Accounts ((m.prune floor).census floor) (m.tally floor) := by
  rw [census, census, values_prune, tally_eq_foldl_values]
  refine Census.accounts_ofChains fun c hc ↦ ?_
  obtain ⟨key, hkey⟩ := ContentView.mem_values_iff.mp hc
  exact (h key c hkey).decreasing

/-- Pruning at two floors in a row is pruning at the higher one. -/
theorem prune_prune (m : VersionMap κ α) (first second : Generation) :
    (m.prune first).prune second = m.prune (max first second) := by
  refine ext_chains fun key ↦ ?_
  rw [chains_prune, chains_prune, chains_prune, Option.bind_assoc]
  exact congrArg _ (funext fun c ↦ c.bind_survivor? first second)

end VersionMap

/-! ### The tables of a tree -/

namespace ContentHistory

variable {h : ContentHistory} {live floor : Generation}

/-- The counts of all four tables. -/
def census (h : ContentHistory) (floor : Generation) : Census :=
  h.nodes.census floor + h.roots.census floor + h.types.census floor + h.typesByHandle.census floor

/-- What pruning at a floor makes of the tables. -/
structure PrunedTo (h : ContentHistory) (floor : Generation) (after : ContentHistory) : Prop where
  nodes : h.nodes.PrunedTo floor after.nodes
  roots : h.roots.PrunedTo floor after.roots
  types : h.types.PrunedTo floor after.types
  typesByHandle : h.typesByHandle.PrunedTo floor after.typesByHandle

theorem InOrder.prunedTo (hh : h.InOrder live) (floor : Generation) :
    h.PrunedTo floor (h.prune floor) :=
  ⟨hh.nodes.prunedTo floor, hh.roots.prunedTo floor, hh.types.prunedTo floor,
    hh.typesByHandle.prunedTo floor⟩

theorem InOrder.accounts (hh : h.InOrder live) (floor : Generation) :
    (h.census floor).Accounts ((h.prune floor).census floor) (h.tally floor) :=
  (((hh.nodes.accounts floor).add (hh.roots.accounts floor)).add (hh.types.accounts floor)).add
    (hh.typesByHandle.accounts floor)

theorem prune_prune (h : ContentHistory) (first second : Generation) :
    (h.prune first).prune second = h.prune (max first second) := by
  simp only [prune, VersionMap.prune_prune]

end ContentHistory

/-! ### Passes -/

namespace CollectStats

/-- What the statistics of a pass tell of its pruning. -/
def tally (s : CollectStats) : PruneTally := ⟨s.entriesExamined, s.entriesPruned, s.keysRemoved⟩

/-- A pass at a floor found nothing to release, prune or remove. -/
structure Idle (s : CollectStats) (floor : Generation) : Prop where
  floor_eq : s.floor = floor
  releasedSnapshots_eq : s.releasedSnapshots = 0
  entriesPruned_eq : s.entriesPruned = 0
  keysRemoved_eq : s.keysRemoved = 0

end CollectStats

/-- Another pass moves neither the clock nor the floor. -/
theorem Engine.collect_collect (e : Engine) (tally again : Generation → PruneTally) :
    ((e.collect tally).1.collect again).1.clock = (e.collect tally).1.clock ∧
      ((e.collect tally).1.collect again).2.floor = (e.collect tally).2.floor ∧
      ((e.collect tally).1.collect again).2.releasedSnapshots = 0 := by
  have hadvance := e.clock.advanceFloor_advanceFloor
  exact ⟨congrArg Prod.fst hadvance, congrArg (·.2.floor) hadvance,
    congrArg (·.2.released) hadvance⟩

section Dictionaries

variable {κ α : Type} [Ord κ] [Std.TransOrd κ]

/-- A pass prunes the table at the new floor, its statistics account for that, and another pass
changes neither the table nor the clock. -/
structure Dictionary.CollectsExactly (d : Dictionary κ α) : Prop where
  floor_eq : d.collect.2.floor = d.collect.1.clock.floor
  pruned : d.items.PrunedTo d.collect.2.floor d.collect.1.items
  accounts : (d.items.census d.collect.2.floor).Accounts
    (d.collect.1.items.census d.collect.2.floor) d.collect.2.tally
  items_again : d.collect.1.collect.1.items = d.collect.1.items
  clock_again : d.collect.1.collect.1.clock = d.collect.1.clock
  stats_again : d.collect.1.collect.2.Idle d.collect.2.floor

theorem RecordedDictionary.Reachable.collectsExactly [Std.LawfulEqOrd κ] {options : StoreOptions}
    {r : RecordedDictionary κ α} (hr : Reachable options r) : r.dictionary.CollectsExactly := by
  obtain ⟨hclock, hfloor, hreleased⟩ := r.dictionary.engine.collect_collect
    r.dictionary.items.tally r.dictionary.collect.1.items.tally
  have hitems : r.dictionary.collect.1.collect.1.items = r.dictionary.collect.1.items :=
    (congrArg r.dictionary.collect.1.items.prune hfloor).trans
      ((VersionMap.prune_prune _ _ _).trans (congrArg _ (Nat.max_self _)))
  have hagain := (hr.step .collect).inOrder.accounts r.dictionary.collect.1.collect.2.floor
  obtain ⟨hpruned, hremoved⟩ := hagain.eq_zero_of_same (congrArg (VersionMap.census · _) hitems)
  exact
    { floor_eq := rfl
      pruned := hr.inOrder.prunedTo _
      accounts := hr.inOrder.accounts _
      items_again := hitems
      clock_again := hclock
      stats_again := ⟨hfloor, hreleased, hpruned, hremoved⟩ }

end Dictionaries

/-- A pass prunes the four tables at the new floor, its statistics account for that, and another
pass changes neither the tables nor the clock. -/
structure ContentStore.CollectsExactly (s : ContentStore) : Prop where
  floor_eq : s.collect.2.floor = s.collect.1.clock.floor
  pruned : s.history.PrunedTo s.collect.2.floor s.collect.1.history
  accounts : (s.history.census s.collect.2.floor).Accounts
    (s.collect.1.history.census s.collect.2.floor) s.collect.2.tally
  history_again : s.collect.1.collect.1.history = s.collect.1.history
  clock_again : s.collect.1.collect.1.clock = s.collect.1.clock
  stats_again : s.collect.1.collect.2.Idle s.collect.2.floor

theorem RecordedStore.Reachable.collectsExactly {kind : ItemKind} {options : StoreOptions}
    {r : RecordedStore} (hr : Reachable kind options r) : r.store.CollectsExactly := by
  obtain ⟨hclock, hfloor, hreleased⟩ := r.store.engine.collect_collect
    r.store.history.tally r.store.collect.1.history.tally
  have hhistory : r.store.collect.1.collect.1.history = r.store.collect.1.history :=
    (congrArg r.store.collect.1.history.prune hfloor).trans
      ((ContentHistory.prune_prune _ _ _).trans (congrArg _ (Nat.max_self _)))
  have hagain := (hr.step .collect).inOrder.accounts r.store.collect.1.collect.2.floor
  obtain ⟨hpruned, hremoved⟩ :=
    hagain.eq_zero_of_same (congrArg (ContentHistory.census · _) hhistory)
  exact
    { floor_eq := rfl
      pruned := hr.inOrder.prunedTo _
      accounts := hr.inOrder.accounts _
      history_again := hhistory
      clock_again := hclock
      stats_again := ⟨hfloor, hreleased, hpruned, hremoved⟩ }

/-- In every state of a run, a collection pass of a dictionary or a store keeps exactly what can
still be seen above the new floor or at it, and drops the keys that only a deletion is left of; its
statistics account for all keys and versions, over all tables; and a second pass finds nothing to
do. -/
theorem collect_exact (κ α : Type) [Ord κ] [Std.TransOrd κ] [Std.LawfulEqOrd κ] :
    (∀ options (r : RecordedDictionary κ α), RecordedDictionary.Reachable options r →
      r.dictionary.CollectsExactly) ∧
    ∀ kind options r, RecordedStore.Reachable kind options r → r.store.CollectsExactly :=
  ⟨fun _ _ hr ↦ hr.collectsExactly, fun _ _ _ hr ↦ hr.collectsExactly⟩

/-- The cleared key with both pins given up. -/
def RecordedDictionary.keyReleased : RecordedDictionary Nat Nat :=
  { keyCleared with dictionary := keyCleared.dictionary.releaseEach [⟨1, 0⟩, ⟨2, 1⟩] }

/-- The removed page with both pins given up. -/
def RecordedStore.pageReleased : RecordedStore :=
  { pageRemoved with store := pageRemoved.store.releaseEach [⟨1, 0⟩, ⟨2, 1⟩] }

/-- The pass drops the key, and the page with its place at the root, each with one older version;
the content type stays, by id and by name. -/
theorem collect_exact_released :
    RecordedDictionary.keyReleased.dictionary.CollectsExactly ∧
      RecordedDictionary.keyReleased.dictionary.collect.2 =
        { floor := 2, releasedSnapshots := 2, entriesExamined := 1, entriesPruned := 1,
          keysRemoved := 1 } ∧
      RecordedStore.pageReleased.store.CollectsExactly ∧
      RecordedStore.pageReleased.store.collect.2 =
        { floor := 2, releasedSnapshots := 2, entriesExamined := 4, entriesPruned := 2,
          keysRemoved := 2 } := by
  have hdictionary : RecordedDictionary.Reachable StoreOptions.default
      RecordedDictionary.keyReleased :=
    RecordedDictionary.reachable_keyCleared.releaseEach (by decide)
  have hstore : RecordedStore.Reachable .content StoreOptions.default RecordedStore.pageReleased :=
    RecordedStore.reachable_pageRemoved.releaseEach (by decide +kernel)
  exact ⟨(collect_exact Nat Nat).1 _ _ hdictionary, by decide +kernel,
    (collect_exact Nat Nat).2 _ _ _ hstore, by decide +kernel⟩

end VersionedContent
