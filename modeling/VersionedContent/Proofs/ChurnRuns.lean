import VersionedContent.Proofs.NodeKeys
import VersionedContent.Proofs.PlantedTrees

/-!
# What churning leaves

A run of the churn loads a dump and then carries out the writes of one round after another, which
the draws choose (`Churn.plan`). If the kits of the dump make a forest and their types are in the
dump, every round leaves the tree in the shape of the dump, whatever is drawn
(`Churn.Writes.planted`). No operation is given a kit with another id than those of the dump, so
in the end there are as many node keys as kits. All this holds however snapshots, releases and
collection passes fall between the writes, and whatever a snapshot shows on the way is a consistent
tree (`KitDump.Plantable.churned`).
-/

set_option autoImplicit false

namespace VersionedContent

/-- A dump that can be loaded as a whole: it has kits, they make a forest, and their types are in
the dump, each once. -/
structure KitDump.Plantable (d : KitDump) : Prop where
  nonempty : d.kits ≠ []
  forest : ContentKit.Forest d.kits
  nodup_types : (d.contentTypes.map ContentType.id).Nodup
  typed : ∀ k ∈ d.kits, ∃ type ∈ d.contentTypes, type.id = k.contentTypeId

/-- The store after some operations, each in a section of its own. -/
def ContentStore.writeEach (s : ContentStore) (calls : List WriterCall) : ContentStore :=
  calls.foldl (fun s call ↦ (s.write (·.perform call)).1) s

theorem WriterCall.runEach_fst {σ : Type} [LiveTables σ] (s : σ) (calls : List WriterCall) :
    (runEach s calls).1 = calls.foldl (fun s call ↦ (call.run s).1) s :=
  (List.foldl_hom Prod.fst fun _ _ ↦ rfl).symm

namespace Churn

open LiveContent (typeTables_run typeTables_set)

variable {c : Config} {t : Stock} {ks : List ContentKit} {k leaf folder : ContentKit}
variable {draw : Draw} {draws : List Draw} {round : Nat} {d : KitDump} {call : WriterCall}

/-! ### The writes of a round -/

/-- The operations of one round. -/
def writesOf (c : Config) (t : Stock) (draw : Draw) (round : Nat) : List WriterCall :=
  match choose? t.kits draw.kit with
  | none => []
  | some k =>
    if round % 5 = 0 then [.clear k.id, .setBranch k.id (branchOf t.kits k.id)]
    else if t.moves round then
      match choose? t.leaves draw.leaf, choose? t.folders draw.folder with
      | some leaf, some folder =>
        if leaf.parentId = some folder.id then [] else [.set (leaf.under folder), .set leaf]
      | _, _ => []
    else
      let data := ContentData.new s!"{k.id} r{round}" (UInt32.ofNat (round + 2)) true c.now
      [.set (k.withPublished data)]

/-- The writes of a round are its operations, each in a section of its own. -/
theorem writeRound_eq (c : Config) (t : Stock) (draw : Draw) (round : Nat) (s : ContentStore) :
    writeRound c t draw round s =
      (s.writeEach (writesOf c t draw round), (writesOf c t draw round).length) := by
  unfold writeRound writesOf
  cases choose? t.kits draw.kit with
  | none => rfl
  | some k =>
    dsimp only
    split_ifs
    · rfl
    · cases choose? t.leaves draw.leaf <;> cases choose? t.folders draw.folder <;> try rfl
      dsimp only
      split_ifs <;> rfl
    · rfl

/-- The operations of a run: the load of the dump, and the writes of one round after another. -/
def plan (c : Config) (draws : List Draw) (d : KitDump) : List WriterCall :=
  .setAllTypes d.contentTypes :: .setAll d.kits ::
    draws.zipIdx.flatMap fun e ↦ writesOf c (Stock.ofKits d.kits) e.1 e.2

/-- What the operations of a round can be: a branch goes and comes back, a kit that is no kit's
parent goes below another one and back, or a kit gets another payload. -/
inductive Writes (ks : List ContentKit) : List WriterCall → Prop
  | nothing : Writes ks []
  | replant {k : ContentKit} (hk : k ∈ ks) :
    Writes ks [.clear k.id, .setBranch k.id (branchOf ks k.id)]
  | moveAround {leaf folder : ContentKit} (hleaf : leaf ∈ ks) (hfolder : folder ∈ ks)
    (hchildless : ∀ d ∈ ks, d.parentId ≠ some leaf.id) (hne : folder.id ≠ leaf.id) :
    Writes ks [.set (leaf.under folder), .set leaf]
  | republish {k : ContentKit} (hk : k ∈ ks) (data : ContentData) :
    Writes ks [.set (k.withPublished data)]

theorem mem_of_choose? {α : Type} {xs : List α} {drawn : Nat} {x : α}
    (h : choose? xs drawn = some x) : x ∈ xs :=
  List.mem_of_getElem? h

theorem mem_leaves_iff :
    k ∈ (Stock.ofKits ks).leaves ↔ k ∈ ks ∧ ∀ d ∈ ks, d.parentId ≠ some k.id := by
  simp [Stock.ofKits, List.partition_eq_filter_filter]

theorem mem_folders_iff :
    k ∈ (Stock.ofKits ks).folders ↔ k ∈ ks ∧ ∃ d ∈ ks, d.parentId = some k.id := by
  simp [Stock.ofKits, List.partition_eq_filter_filter]

theorem writes_writesOf (c : Config) (ks : List ContentKit) (draw : Draw) (round : Nat) :
    Writes ks (writesOf c (Stock.ofKits ks) draw round) := by
  unfold writesOf
  cases hk : choose? (Stock.ofKits ks).kits draw.kit with
  | none => exact .nothing
  | some k =>
    have hk : k ∈ ks := mem_of_choose? hk
    dsimp only
    split_ifs
    · exact .replant hk
    · cases hleaf : choose? (Stock.ofKits ks).leaves draw.leaf with
      | none => exact .nothing
      | some leaf =>
        cases hfolder : choose? (Stock.ofKits ks).folders draw.folder with
        | none => exact .nothing
        | some folder =>
          dsimp only
          split_ifs
          · exact .nothing
          · obtain ⟨hleaf, hchildless⟩ := mem_leaves_iff.mp (mem_of_choose? hleaf)
            obtain ⟨hfolder, d, hd, hparent⟩ := mem_folders_iff.mp (mem_of_choose? hfolder)
            exact .moveAround hleaf hfolder hchildless fun heq ↦ hchildless d hd (heq ▸ hparent)
    · exact .republish hk _

/-! ### The shape of the tree -/

/-- Every round leaves the tree in the shape of the kits. -/
theorem Writes.planted {calls : List WriterCall} (hwrites : Writes ks calls) {s : LiveContent}
    (h : s.Planted ks) (hks : ContentKit.Forest ks) :
    (calls.foldl (fun s call ↦ (call.run s).1) s).Planted ks := by
  have hsound : (calls.foldl (fun s call ↦ (call.run s).1) s).Sound :=
    List.foldlRecOn calls _ h.sound fun _ hs call _ ↦ LiveContent.sound_invariant.run hs call
  cases hwrites with
  | nothing => exact h
  | @replant k hk =>
    have hcalls : (Edit.setBranch (Edit.clear s k.id).1 k.id (branchOf ks k.id)).1 =
        (Edit.setBranch s k.id (branchOf ks k.id)).1 :=
      congrArg Prod.fst (LiveContent.setBranch_clear h.sound.grounded.linked k.id _)
    refine h.of_linkOf_eq hsound ?_ ((typeTables_run _ _).trans (typeTables_run _ _))
    exact (congrArg (·.view.linkOf) hcalls).trans (h.linkOf_setBranch hks hk)
  | moveAround hleaf hfolder hchildless hne =>
    exact h.of_linkOf_eq hsound (h.linkOf_set_set hks hleaf hfolder hchildless hne)
      ((typeTables_set _ _).trans (typeTables_set _ _))
  | republish hk data =>
    exact h.of_linkOf_eq hsound (h.linkOf_set hks hk data) (typeTables_set _ _)

/-- The kits that a round stores are for the ids of the kits at hand. -/
theorem Writes.exists_kit {calls : List WriterCall} (hwrites : Writes ks calls)
    (hks : ContentKit.Forest ks) (hcall : call ∈ calls) (hk : k ∈ call.kits) :
    ∃ q ∈ ks, q.id = k.id := by
  cases hwrites with
  | nothing => exact absurd hcall List.not_mem_nil
  | replant hq =>
    obtain rfl | rfl : call = _ ∨ call = _ := by simpa using hcall
    · exact absurd hk List.not_mem_nil
    · exact ⟨k, (hks.mem_branchOf_iff.mp hk).1, rfl⟩
  | @moveAround leaf folder hleaf _ _ _ =>
    obtain rfl | rfl : call = _ ∨ call = _ := by simpa using hcall
    · exact ⟨leaf, hleaf, (List.mem_singleton.mp hk) ▸ rfl⟩
    · exact ⟨leaf, hleaf, (List.mem_singleton.mp hk) ▸ rfl⟩
  | @republish q hq data =>
    obtain rfl := List.mem_singleton.mp hcall
    exact ⟨q, hq, (List.mem_singleton.mp hk) ▸ rfl⟩

/-- The operations of a run leave a tree in the shape of the dump, whatever is drawn. -/
theorem planted_plan (hd : d.Plantable) (c : Config) (draws : List Draw) :
    (WriterCall.runEach LiveContent.empty (plan c draws d)).1.Planted d.kits := by
  rw [WriterCall.runEach_fst, plan, List.foldl_cons, List.foldl_cons, List.foldl_flatMap]
  refine foldl_keeps (P := fun s : LiveContent ↦ s.Planted d.kits)
    (fun _ e hs ↦ (writes_writesOf c d.kits e.1 e.2).planted hs hd.forest) _ ?_
  exact LiveContent.sound_empty.planted_load hd.forest hd.nodup_types hd.typed

/-- Every kit that an operation of a run is given is for an id of the dump. -/
theorem exists_kit_of_mem_plan (hd : d.Plantable) (hcall : call ∈ plan c draws d)
    (hk : k ∈ call.kits) : ∃ q ∈ d.kits, q.id = k.id := by
  simp only [plan, List.mem_cons, List.mem_flatMap] at hcall
  obtain rfl | rfl | ⟨e, -, hcall⟩ := hcall
  · exact absurd hk List.not_mem_nil
  · exact ⟨k, hk, rfl⟩
  · exact (writes_writesOf c d.kits e.1 e.2).exists_kit hd.forest hcall hk

end Churn

/-! ### Runs with anything in between -/

/-- A store whose tree has the shape of a dump, with as many node keys as the dump has kits. -/
structure KitDump.Restored (d : KitDump) (s : ContentStore) : Prop where
  shape : s.live.view.HasShapeOf d.kits
  count_eq : s.count = d.kits.length

/-- A consistent tree of nodes of a dump. -/
structure KitDump.Shows (d : KitDump) (v : ContentView) : Prop where
  linkProblem?_eq : v.linkProblem? = none
  exists_kit : ∀ id n, v.node? id = some n → ∃ k ∈ d.kits, k.id = id

namespace StoreTranscript

variable {kind : ItemKind} {options : StoreOptions} {t : StoreTranscript}
variable {c : Churn.Config} {draws : List Churn.Draw} {d : KitDump}

/-- Once all operations of a run are carried out, the tree has the shape of the dump and no key is
left of anything else. -/
theorem Reachable.restored (ht : Reachable kind options t) (hd : d.Plantable)
    (hcalls : t.calls = Churn.plan c draws d) : d.Restored t.store := by
  have hplanted : t.store.live.Planted d.kits := by
    rw [ht.plain.live_eq, hcalls]
    exact Churn.planted_plan hd c draws
  refine ⟨hplanted.shape, ?_⟩
  have hkeys : t.store.history.nodes.chains.keys.Perm (d.kits.map ContentKit.id) := by
    refine (List.perm_ext_iff_of_nodup Std.ExtTreeMap.nodup_keys hd.forest.nodup_ids).mpr
      fun id ↦ ?_
    rw [Std.ExtTreeMap.mem_keys, List.mem_map]
    constructor
    · intro hid
      obtain ⟨call, hcall, k, hk, rfl⟩ := ht.exists_kit_of_mem_nodes hid
      exact Churn.exists_kit_of_mem_plan hd (hcalls ▸ hcall) hk
    · rintro ⟨k, hk, rfl⟩
      obtain ⟨n, hn⟩ := hplanted.exists_node? hk
      exact VersionMap.mem_chains_of_read ((VersionMap.getElem?_liveView _ _).symm.trans hn)
  rw [ContentStore.count, VersionMap.size, ← Std.ExtTreeMap.length_keys, hkeys.length_eq,
    List.length_map]

/-- Whatever a snapshot shows that is held while the operations of a run are carried out is a
consistent tree of nodes of the dump. -/
theorem Reachable.shows_of_mem_held (ht : Reachable kind options t) (hd : d.Plantable)
    (hcalls : t.calls <+: Churn.plan c draws d) {pin : Pin} (hpin : pin ∈ t.clock.held) :
    d.Shows (t.store.viewAt pin.generation) := by
  obtain ⟨l, hlinked, hview⟩ := ht.recorded.keeps_of_mem_held ContentView.linked_invariant
    ContentView.linked_empty hpin
  have hview : l.view = t.store.viewAt pin.generation := hview
  refine ⟨(hview ▸ hlinked).linkProblem?_eq_none, fun id n hn ↦ ?_⟩
  have hkey : id ∈ t.store.history.nodes.chains :=
    VersionMap.mem_chains_of_read ((VersionMap.getElem?_viewAt _ _ _).symm.trans hn)
  obtain ⟨call, hcall, k, hk, rfl⟩ := ht.exists_kit_of_mem_nodes hkey
  exact Churn.exists_kit_of_mem_plan hd (hcalls.subset hcall) hk

theorem Reachable.shows_shown (ht : Reachable kind options t) (hd : d.Plantable)
    (hcalls : t.calls <+: Churn.plan c draws d) : d.Shows t.store.shown :=
  (ht.step .snapshot).shows_of_mem_held hd hcalls t.store.issuesTo_snapshot.issue_mem_held

end StoreTranscript

/-! ### The run itself -/

/-- A store with no section open, after a run in which certain operations were asked for. -/
def ContentStore.IdleAfter (kind : ItemKind) (options : StoreOptions) (calls : List WriterCall)
    (s : ContentStore) : Prop :=
  s.clock.writing = false ∧
    ∃ t, StoreTranscript.Reachable kind options t ∧ t.calls = calls ∧ t.store = s

namespace ContentStore.IdleAfter

variable {kind : ItemKind} {options : StoreOptions} {calls : List WriterCall} {s : ContentStore}

theorem of_create (hs : create kind options = .ok s) : s.IdleAfter kind options [] := by
  refine ⟨?_, _, ⟨s, hs, .refl⟩, rfl, rfl⟩
  obtain rfl := eq_of_create hs
  rfl

/-- A section with some operations. -/
theorem inSection (h : s.IdleAfter kind options calls) (more : List WriterCall) :
    (more.foldl (fun s call ↦ (s.perform call).1) s.openSection).closeSection.IdleAfter kind options
      (calls ++ more) := by
  obtain ⟨hclosed, t, ht, rfl, rfl⟩ := h
  have hstore := StoreTranscript.store_answeredEach (t.withStore t.store.openSection) more
  exact ⟨rfl, t.inOneSection more, ht.inOneSection hclosed more, t.calls_inOneSection more,
    congrArg closeSection hstore⟩

/-- A load of a dump, which is one section. -/
theorem applyTo (h : s.IdleAfter kind options calls) (d : KitDump) :
    (d.applyTo s).1.IdleAfter kind options
      (calls ++ [.setAllTypes d.contentTypes, .setAll d.kits]) :=
  h.inSection _

theorem writeEach (h : s.IdleAfter kind options calls) (more : List WriterCall) :
    (s.writeEach more).IdleAfter kind options (calls ++ more) := by
  induction more generalizing s calls with
  | nil => exact (List.append_nil calls).symm ▸ h
  | cons call more ih =>
    rw [← List.singleton_append, ← List.append_assoc]
    exact ih (h.inSection [call])

theorem snapshot (h : s.IdleAfter kind options calls) :
    s.snapshot.1.IdleAfter kind options calls := by
  obtain ⟨hclosed, t, ht, hcalls, rfl⟩ := h
  exact ⟨t.store.issuesTo_snapshot.writing_eq.trans hclosed, _, ht.step .snapshot, hcalls, rfl⟩

theorem touch (h : s.IdleAfter kind options calls) : s.touch.1.IdleAfter kind options calls := by
  obtain ⟨hclosed, t, ht, hcalls, rfl⟩ := h
  have hheld := t.store.issuesTo_snapshot.issue_mem_held
  exact ⟨t.store.issuesTo_snapshot.writing_eq.trans hclosed, _,
    (ht.step .snapshot).step (.release hheld), hcalls, rfl⟩

theorem collect (h : s.IdleAfter kind options calls) :
    s.collect.1.IdleAfter kind options calls := by
  obtain ⟨hclosed, t, ht, hcalls, rfl⟩ := h
  exact ⟨hclosed, _, ht.step .collect, hcalls, rfl⟩

/-- With no section open, a new snapshot shows what the writer sees. -/
theorem shown_eq (h : s.IdleAfter kind options calls) : s.shown = s.live.view := by
  obtain ⟨hclosed, t, ht, -, rfl⟩ := h
  exact ht.recorded.faithful.shown_eq_live hclosed

end ContentStore.IdleAfter

namespace Churn

variable {kind : ItemKind} {options : StoreOptions} {calls : List WriterCall} {s : ContentStore}
variable {c : Config} {t : Stock} {d : KitDump}

/-- The readers of a round find nothing wrong and leave no trace. -/
theorem readRound_idle (h : s.IdleAfter kind options calls) (readers : Nat) (checks : Checks) :
    (readRound readers s checks).1.IdleAfter kind options calls ∧
      (readRound readers s checks).2 = ⟨checks.checked + readers, checks.inconsistent⟩ := by
  induction readers generalizing s checks with
  | zero => exact ⟨h, rfl⟩
  | succ readers ih =>
    have hsound : s.shown.linkProblem? = none := by
      obtain ⟨-, t, ht, -, rfl⟩ := h
      exact ht.recorded.linked_shown.linkProblem?_eq_none
    obtain ⟨hidle, hchecks⟩ := ih h.touch
      ⟨checks.checked + 1, checks.inconsistent + if s.shown.linkProblem?.isNone then 0 else 1⟩
    refine ⟨hidle, hchecks.trans ?_⟩
    rw [hsound, Nat.add_right_comm]
    rfl

/-- A run in progress: the operations so far were carried out, and no snapshot was found
inconsistent. -/
structure Playing (kind : ItemKind) (options : StoreOptions) (calls : List WriterCall)
    (state : ContentStore × Nat × Checks) : Prop where
  idle : state.1.IdleAfter kind options calls
  consistent : state.2.2.inconsistent = 0

theorem Playing.playRound {state : ContentStore × Nat × Checks}
    (h : Playing kind options calls state) (c : Config) (t : Stock) (draw : Draw) (round : Nat) :
    Playing kind options (calls ++ writesOf c t draw round) (playRound c t draw round state) := by
  obtain ⟨s, writes, checks⟩ := state
  have hwritten := h.idle.writeEach (writesOf c t draw round)
  have htouched : (if round % 16 = 15 then (s.writeEach (writesOf c t draw round)).touch.1
      else s.writeEach (writesOf c t draw round)).IdleAfter kind options
        (calls ++ writesOf c t draw round) := by
    split_ifs
    · exact hwritten.touch
    · exact hwritten
  obtain ⟨hidle, hchecks⟩ := readRound_idle htouched c.readers checks
  simp only [Churn.playRound, writeRound_eq]
  exact ⟨hidle, (congrArg Checks.inconsistent hchecks).trans h.consistent⟩

theorem Playing.playRounds {state : ContentStore × Nat × Checks}
    (h : Playing kind options calls state) (c : Config) (t : Stock) (rounds : List (Draw × Nat)) :
    Playing kind options (calls ++ rounds.flatMap fun e ↦ writesOf c t e.1 e.2)
      (rounds.foldl (fun state e ↦ Churn.playRound c t e.1 e.2 state) state) := by
  induction rounds generalizing state calls with
  | nil => exact (List.append_nil calls).symm ▸ h
  | cons e rounds ih =>
    rw [List.flatMap_cons, ← List.append_assoc]
    exact ih (h.playRound c t e.1 e.2)

/-- A run on a new store ends, and carries out its operations and no others. -/
theorem run_idle (hs : ContentStore.create kind options = .ok s) (hd : d.kits ≠ [])
    (c : Config) (draws : List Draw) :
    ∃ s' report, run c draws d s = .ok (s', report) ∧
      s'.IdleAfter kind options (plan c draws d) ∧ report.inconsistentSnapshots = 0 ∧
      report.nodeKeys = s'.count := by
  have hloaded : (d.applyTo s).1.IdleAfter kind options
      [.setAllTypes d.contentTypes, .setAll d.kits] :=
    (ContentStore.IdleAfter.of_create hs).applyTo d
  have hstart : Playing kind options _ ((d.applyTo s).1, 0, ⟨0, 0⟩) := ⟨hloaded, rfl⟩
  have hplayed := hstart.playRounds c (Stock.ofKits d.kits) draws.zipIdx
  have hnonempty : ¬d.kits.isEmpty = true := by simpa using hd
  rw [run, if_neg hnonempty]
  exact ⟨_, _, rfl, hplayed.idle.collect, hplayed.consistent, rfl⟩

/-- What churning a store with a dump comes to. -/
structure Churned (kind : ItemKind) (options : StoreOptions) (c : Config) (draws : List Draw)
    (d : KitDump) : Prop where
  /-- A snapshot shows a consistent tree, taken after whatever number of operations and for as long
  as it is held. -/
  snapshots : ∀ t, StoreTranscript.Reachable kind options t → t.calls <+: plan c draws d →
    d.Shows t.store.shown ∧ ∀ pin ∈ t.clock.held, d.Shows (t.store.viewAt pin.generation)
  /-- All operations together leave the dump, whatever else there is between them. -/
  restored : ∀ t, StoreTranscript.Reachable kind options t → t.calls = plan c draws d →
    d.Restored t.store
  /-- The run carries out just these operations, and reports what is so. -/
  run : ∀ s, ContentStore.create kind options = .ok s → ∃ s' report,
    run c draws d s = .ok (s', report) ∧ s'.IdleAfter kind options (plan c draws d) ∧
      d.Restored s' ∧ s'.shown.HasShapeOf d.kits ∧ report.inconsistentSnapshots = 0 ∧
      report.nodeKeys = d.kits.length

end Churn

/-- Churning a new store with a dump that can be loaded as a whole leaves exactly the nodes of the
dump, each under the parent that it has there, and one node key for each kit, whatever is drawn in
however many rounds. Every snapshot on the way shows a consistent tree. -/
theorem KitDump.Plantable.churned {d : KitDump} (hd : d.Plantable) (kind : ItemKind)
    (options : StoreOptions) (c : Churn.Config) (draws : List Churn.Draw) :
    Churn.Churned kind options c draws d where
  snapshots _ ht hcalls :=
    ⟨ht.shows_shown hd hcalls, fun _ hpin ↦ ht.shows_of_mem_held hd hcalls hpin⟩
  restored _ ht hcalls := ht.restored hd hcalls
  run s hs := by
    obtain ⟨s', report, hrun, hidle, hsound, hkeys⟩ := Churn.run_idle hs hd.nonempty c draws
    have hrestored : d.Restored s' := by
      obtain ⟨-, t, ht, hcalls, rfl⟩ := hidle
      exact ht.restored hd hcalls
    exact ⟨s', report, hrun, hidle, hrestored, hidle.shown_eq ▸ hrestored.shape, hsound,
      hkeys.trans hrestored.count_eq⟩

namespace Churn

/-- A page with one below it, and a page beside it. -/
def pagesDump : KitDump where
  contentTypes := [RecordedStore.pageType]
  kits := [RecordedStore.page,
    { RecordedStore.page with id := ⟨2⟩, parentId := some ⟨1⟩, level := 2 },
    { RecordedStore.page with id := ⟨3⟩ }]

/-- Draws that replant the first page, move the last one below it and back, and republish the one
that is below it. -/
def pagesDraws : List Draw := [⟨0, 0, 0⟩, ⟨0, 1, 0⟩, ⟨1, 0, 0⟩]

/-- After the seven operations of such a run, with two readers, there are three node keys again, and
the pages are where they were. -/
theorem churned_pagesDump :
    pagesDump.Plantable ∧ (plan ⟨2, default⟩ pagesDraws pagesDump).length = 7 ∧
      ∃ s report, run ⟨2, default⟩ pagesDraws pagesDump
          ⟨.content, Engine.new StoreOptions.default, .empty, .empty⟩ = .ok (s, report) ∧
        report.inconsistentSnapshots = 0 ∧ report.nodeKeys = 3 ∧
        s.live.view.linkOf ⟨2⟩ = some (some ⟨1⟩) ∧ s.live.view.linkOf ⟨3⟩ = some none := by
  have hpages : pagesDump.Plantable := {
    nonempty := by decide
    forest := ⟨by decide, by decide, by decide⟩
    nodup_types := by decide
    typed := by decide }
  obtain ⟨s, report, hrun, -, hrestored, -, hsound, hkeys⟩ :=
    (hpages.churned .content StoreOptions.default ⟨2, default⟩ pagesDraws).run _ rfl
  exact ⟨hpages, by decide +kernel, s, report, hrun, hsound, hkeys,
    (hrestored.shape _ _).mpr (by decide), (hrestored.shape _ _).mpr (by decide)⟩

end Churn

end VersionedContent
