import VersionedContent.Outline
import VersionedContent.Proofs.EngineRuns
import VersionedContent.Proofs.PlainEdits
import VersionedContent.Proofs.WriterTables

/-!
# Runs of a store

`RecordedStore` keeps, beside a store, the tables that every write section left when it ended, with
the generation of the section; `viewAsOf` is what the last section of the generations up to a given
one left. Whatever sections, writer operations, snapshots, clones, releases and collection passes a
run is made of, a snapshot shows all four tables as `viewAsOf` has them at its generation, from the
moment it is taken until its last handle is released (`RecordedStore.Reachable.viewAt_eq_viewAsOf`).
`ContentStore.Shows` lists the reads that are computed from them.
-/

set_option autoImplicit false

namespace VersionedContent

theorem ContentView.isEmpty_iff (v : ContentView) :
    v.isEmpty = true ↔ ∀ id, v.node? id = none := by
  rw [isEmpty, Std.ExtTreeMap.isEmpty_iff]
  refine ⟨fun hempty id ↦ ?_, fun hnone ↦ Std.ExtTreeMap.ext_getElem? fun id ↦ ?_⟩
  · rw [node?, hempty, Std.ExtTreeMap.getElem?_empty]
  · exact (hnone id).trans Std.ExtTreeMap.getElem?_empty.symm

namespace ContentStore

/-- Every read of a snapshot of a generation gives what plain tables hold; the snapshot is empty
when no chain of a node has a value at the generation. -/
structure Shows (s : ContentStore) (generation : Generation) (v : ContentView) : Prop where
  node? : ∀ id, (s.viewAt generation).node? id = v.node? id
  atRoot : (s.viewAt generation).atRoot = v.atRoot
  children : ∀ id, (s.viewAt generation).children id = v.children id
  parent? : ∀ id, (s.viewAt generation).parent? id = v.parent? id
  ancestors : ∀ id, (s.viewAt generation).ancestors id = v.ancestors id
  all : (s.viewAt generation).all = v.all
  isEmpty : (s.viewAt generation).isEmpty = v.isEmpty
  isEmpty_iff : v.isEmpty = true ↔ ∀ id, s.history.nodes.get? generation id = none
  type? : ∀ id, (s.viewAt generation).type? id = v.type? id
  typeNamed? : ∀ handle, (s.viewAt generation).typeNamed? handle = v.typeNamed? handle
  allTypes : (s.viewAt generation).allTypes = v.allTypes
  outline : ∀ preview maxDepth,
    (s.viewAt generation).outline preview maxDepth = v.outline preview maxDepth

theorem shows_viewAt (s : ContentStore) (generation : Generation) :
    s.Shows generation (s.viewAt generation) where
  node? _ := rfl
  atRoot := rfl
  children _ := rfl
  parent? _ := rfl
  ancestors _ := rfl
  all := rfl
  isEmpty := rfl
  isEmpty_iff := by
    simp only [ContentView.isEmpty_iff, ← VersionMap.getElem?_viewAt]
    rfl
  type? _ := rfl
  typeNamed? _ := rfl
  allTypes := rfl
  outline _ _ := rfl

/-- Carries out an operation of a writer, within a section. -/
def perform (s : ContentStore) : WriterCall → ContentStore × WriterAnswer
  | .set k => WriterAnswer.of .outcome (s.set k)
  | .clear id => WriterAnswer.of .found (s.clear id)
  | .setAll ks => WriterAnswer.of .loaded (s.setAll ks)
  | .setBranch root ks => WriterAnswer.of .loaded (s.setBranch root ks)
  | .setAllTypes types => WriterAnswer.of .rebuilt (s.setAllTypes types)
  | .updateTypes removed refreshed ks =>
    WriterAnswer.of .rebuilt (s.updateTypes removed refreshed ks)
  | .updateDataTypes ids resolve r =>
    WriterAnswer.of (fun answer ↦ .rebuilt answer.2) (s.updateDataTypes ids resolve r)

/-- An operation acts on the tables and the index as a writer with access to them, gives the
writer's answer, and leaves the clock alone. -/
theorem perform_eq (s : ContentStore) (call : WriterCall) :
    (s.perform call).1.history = (call.run s.writer).1.history ∧
      (s.perform call).1.index = (call.run s.writer).1.index ∧
      (s.perform call).2 = (call.run s.writer).2 ∧ (s.perform call).1.clock = s.clock := by
  cases call <;> exact ⟨rfl, rfl, rfl, rfl⟩

/-- What the view of the writer becomes under an operation, and what the generations before the
live one see. Assumes: no chain is newer than the live generation. -/
theorem perform_follows {s : ContentStore} (h : s.history.HeadsLE s.clock.live)
    (call : WriterCall) :
    (s.perform call).1.history.HeadsLE s.clock.live ∧
      (s.perform call).1.live = (call.run s.live).1 ∧
      (s.perform call).2 = (call.run s.live).2 ∧
      ∀ generation, generation < s.clock.live →
        (s.perform call).1.viewAt generation = s.viewAt generation := by
  obtain ⟨hhistory, hindex, hanswer, -⟩ := s.perform_eq call
  obtain ⟨hfollows, hagree⟩ := ContentWriter.run_follows (w := s.writer) h call
  have hgeneration : (call.run s.writer).1.generation = s.clock.live := hfollows.generation_eq
  refine ⟨?_, ?_, hanswer.trans hagree, ?_⟩
  · rw [hhistory, ← hgeneration]
    exact hfollows.headsLE
  · have hlive : (call.run s.writer).1.live = (call.run s.live).1 := hfollows.live_eq
    rw [← hlive]
    simp only [live, writer, ContentWriter.live, hhistory, hindex]
  · intro generation hlt
    have hpast := hfollows.past_eq generation (hgeneration ▸ hlt)
    simp only [viewAt, hhistory]
    exact hpast

theorem eq_of_create {kind : ItemKind} {options : StoreOptions} {s : ContentStore}
    (h : create kind options = .ok s) :
    s = ⟨kind, Engine.new options, ContentHistory.empty, TypeIndex.empty⟩ := by
  unfold create StoreOptions.validate at h
  split_ifs at h <;> cases h
  rfl

theorem live_eq_of_create {kind : ItemKind} {options : StoreOptions} {s : ContentStore}
    (h : create kind options = .ok s) : s.live = LiveContent.empty := by
  obtain rfl := eq_of_create h
  have hheads : ContentHistory.empty.HeadsLE 0 := ContentHistory.headsLE_empty
  have hview : ContentHistory.empty.liveView = ContentView.empty :=
    (ContentHistory.viewAt_eq_liveView hheads (Nat.le_refl 0)).symm.trans
      ContentHistory.viewAt_empty
  exact congrArg (LiveContent.mk · TypeIndex.empty) hview

/-- A snapshot is an issued pin, with or without a collection pass after it. -/
theorem snapshot_eq (s : ContentStore) :
    s.snapshot.1 = { s with engine := s.engine.issue.1 } ∨
      s.snapshot.1 = ({ s with engine := s.engine.issue.1 } : ContentStore).collect.1 := by
  unfold snapshot
  dsimp only
  split_ifs
  · exact Or.inr rfl
  · exact Or.inl rfl

theorem engine_snapshot (s : ContentStore) :
    s.snapshot.1.engine = s.engine.snapshotted s.history.tally := by
  unfold snapshot Engine.snapshotted
  dsimp only
  split_ifs <;> rfl

theorem issuesTo_snapshot (s : ContentStore) : s.clock.IssuesTo s.snapshot.1.clock := by
  have hissues := s.engine.issuesTo_snapshotted s.history.tally
  rwa [← engine_snapshot] at hissues

end ContentStore

/-- A store beside the tables that each write section left at its end, oldest first, each with the
generation of the section. -/
structure RecordedStore where
  store : ContentStore
  sections : List (Generation × ContentView)

namespace RecordedStore

/-- The tables that the last section of the generations up to a given one left; those of an empty
store if there was none. -/
def viewAsOf (r : RecordedStore) (generation : Generation) : ContentView :=
  ((r.sections.filter fun e ↦ decide (e.1 ≤ generation)).getLast?.map Prod.snd).getD
    ContentView.empty

/-- The clock of the store. -/
def clock (r : RecordedStore) : Clock := r.store.clock

/-- One step of a run. A writer works in an open section, handles are cloned and released by their
holders; a snapshot, which may start a pass of its own, and a collection pass need neither. -/
inductive Step : RecordedStore → RecordedStore → Prop
  | openSection {r : RecordedStore} (hclosed : r.clock.writing = false) :
    Step r { r with store := r.store.openSection }
  | closeSection {r : RecordedStore} (hopen : r.clock.writing = true) :
    Step r ⟨r.store.closeSection, r.sections ++ [(r.clock.live, r.store.live.view)]⟩
  | perform {r : RecordedStore} (hopen : r.clock.writing = true) (call : WriterCall) :
    Step r { r with store := (r.store.perform call).1 }
  | snapshot {r : RecordedStore} : Step r { r with store := r.store.snapshot.1 }
  | clone {r : RecordedStore} {pin : Pin} (hheld : pin ∈ r.clock.held) :
    Step r { r with store := r.store.clone pin }
  | release {r : RecordedStore} {pin : Pin} (hheld : pin ∈ r.clock.held) :
    Step r { r with store := r.store.release pin }
  | collect {r : RecordedStore} : Step r { r with store := r.store.collect.1 }

/-- What any number of steps lead to. -/
abbrev Steps : RecordedStore → RecordedStore → Prop := Relation.ReflTransGen Step

/-- The states of the runs that start with a new store. -/
def Reachable (kind : ItemKind) (options : StoreOptions) (r : RecordedStore) : Prop :=
  ∃ s, ContentStore.create kind options = .ok s ∧ Steps ⟨s, []⟩ r

/-- The invariant of a run: every generation from the floor on, up to the one before an open
section, sees what the last section up to it left. -/
structure Faithful (r : RecordedStore) : Prop where
  sound : r.clock.Sound
  headsLE : r.store.history.HeadsLE r.clock.live
  viewAt_eq : ∀ generation, r.clock.floor ≤ generation →
    (r.clock.writing = true → generation < r.clock.live) →
      r.store.viewAt generation = r.viewAsOf generation

theorem viewAsOf_append (r : RecordedStore) (s : ContentStore) (live : Generation)
    (v : ContentView) (generation : Generation) :
    viewAsOf ⟨s, r.sections ++ [(live, v)]⟩ generation =
      if live ≤ generation then v else r.viewAsOf generation := by
  unfold viewAsOf
  by_cases hle : live ≤ generation <;> simp [List.filter_append, hle]

theorem viewAsOf_eq_empty_or_mem (r : RecordedStore) (generation : Generation) :
    r.viewAsOf generation = ContentView.empty ∨ ∃ e ∈ r.sections, e.2 = r.viewAsOf generation := by
  unfold viewAsOf
  cases hlast : (r.sections.filter fun e ↦ decide (e.1 ≤ generation)).getLast? with
  | none => exact Or.inl rfl
  | some e => exact Or.inr ⟨e, List.mem_of_mem_filter (List.mem_of_getLast? hlast), rfl⟩

variable {r : RecordedStore}

theorem Step.engine {u : RecordedStore} (hstep : Step r u) :
    r.store.engine.Step u.store.engine := by
  cases hstep with
  | openSection _ => exact ⟨rfl, .openSection⟩
  | closeSection _ => exact ⟨rfl, .closeSection⟩
  | perform _ call => cases call <;> exact ⟨rfl, .stay⟩
  | snapshot => exact r.store.engine_snapshot ▸ r.store.engine.step_snapshotted _
  | clone hheld => exact ⟨rfl, .clone hheld⟩
  | release _ => exact ⟨rfl, .release⟩
  | collect => exact ⟨rfl, .advanceFloor⟩

theorem Reachable.engine {kind : ItemKind} {options : StoreOptions}
    (hr : Reachable kind options r) : Engine.Reachable options r.store.engine := by
  obtain ⟨s, hs, hsteps⟩ := hr
  obtain rfl := ContentStore.eq_of_create hs
  exact hsteps.lift (fun r ↦ r.store.engine) fun _ _ ↦ Step.engine

theorem faithful_new {kind : ItemKind} {options : StoreOptions} {s : ContentStore}
    (h : ContentStore.create kind options = .ok s) : Faithful ⟨s, []⟩ := by
  obtain rfl := ContentStore.eq_of_create h
  exact ⟨Clock.sound_new, ContentHistory.headsLE_empty, fun _ _ _ ↦ ContentHistory.viewAt_empty⟩

/-- Steps of the clock that leave the floor, the live generation and the sections in place keep the
invariant. -/
theorem Faithful.withEngine (h : r.Faithful) {engine : Engine} (hsound : engine.clock.Sound)
    (hfloor : engine.clock.floor = r.clock.floor) (hlive : engine.clock.live = r.clock.live)
    (hwriting : engine.clock.writing = r.clock.writing) :
    Faithful { r with store := { r.store with engine } } where
  sound := hsound
  headsLE := h.headsLE.mono hlive.ge
  viewAt_eq generation hle hlt :=
    h.viewAt_eq generation (hfloor ▸ hle) fun hopen ↦ hlive ▸ hlt (hwriting.trans hopen)

theorem Faithful.openSection (h : r.Faithful) (hclosed : r.clock.writing = false) :
    Faithful { r with store := r.store.openSection } where
  sound := h.sound.openSection
  headsLE := h.headsLE.mono (Clock.live_le_openSection r.clock)
  viewAt_eq generation hle _ :=
    h.viewAt_eq generation (Nat.le_trans (Clock.floor_openSection r.clock).ge hle) fun hopen ↦ by
      simp [hclosed] at hopen

/-- At the end of a section every generation from the live one on sees what the section left. -/
theorem Faithful.closeSection (h : r.Faithful) :
    Faithful ⟨r.store.closeSection, r.sections ++ [(r.clock.live, r.store.live.view)]⟩ := by
  refine ⟨h.sound.closeSection, h.headsLE, fun generation hle _ ↦ ?_⟩
  rw [viewAsOf_append]
  split_ifs with hlive
  · exact ContentHistory.viewAt_eq_liveView h.headsLE hlive
  · exact h.viewAt_eq generation hle fun _ ↦ Nat.not_le.mp hlive

/-- An operation is seen by no generation before that of its section. -/
theorem Faithful.perform (h : r.Faithful) (hopen : r.clock.writing = true) (call : WriterCall) :
    Faithful { r with store := (r.store.perform call).1 } := by
  obtain ⟨hheads, -, -, hpast⟩ := ContentStore.perform_follows h.headsLE call
  have hclock : (r.store.perform call).1.clock = r.clock := (r.store.perform_eq call).2.2.2
  refine ⟨?_, ?_, ?_⟩
  · change (r.store.perform call).1.clock.Sound
    rw [hclock]
    exact h.sound
  · change (r.store.perform call).1.history.HeadsLE (r.store.perform call).1.clock.live
    rw [hclock]
    exact hheads
  · intro generation hle hlt
    change (r.store.perform call).1.clock.floor ≤ generation at hle
    change (r.store.perform call).1.clock.writing = true →
      generation < (r.store.perform call).1.clock.live at hlt
    rw [hclock] at hle hlt
    exact (hpast generation (hlt hopen)).trans (h.viewAt_eq generation hle hlt)

theorem Faithful.collect (h : r.Faithful) :
    Faithful { r with store := r.store.collect.1 } where
  sound := h.sound.advanceFloor
  headsLE := h.headsLE.prune
  viewAt_eq generation hle hlt :=
    (ContentHistory.viewAt_prune hle).trans
      (h.viewAt_eq generation (Nat.le_trans h.sound.floor_le_advanceFloor hle) hlt)

theorem Faithful.issue (h : r.Faithful) :
    Faithful { r with store := { r.store with engine := r.store.engine.issue.1 } } :=
  h.withEngine h.sound.issue (Clock.floor_issue r.clock) (Clock.live_issue r.clock)
    (Clock.writing_issue r.clock)

theorem Faithful.step (h : r.Faithful) {u : RecordedStore} (hstep : Step r u) : u.Faithful := by
  cases hstep with
  | openSection hclosed => exact h.openSection hclosed
  | closeSection _ => exact h.closeSection
  | perform hopen call => exact h.perform hopen call
  | snapshot =>
    rcases ContentStore.snapshot_eq r.store with hissued | hcollected
    · rw [hissued]
      exact h.issue
    · rw [hcollected]
      exact h.issue.collect
  | clone hheld => exact h.withEngine (h.sound.clone hheld) rfl rfl rfl
  | release _ => exact h.withEngine (h.sound.release _) rfl rfl rfl
  | collect => exact h.collect

theorem Faithful.steps (h : r.Faithful) {u : RecordedStore} (hsteps : Steps r u) :
    u.Faithful := by
  induction hsteps with
  | refl => exact h
  | tail _ hstep ih => exact ih.step hstep

theorem Reachable.faithful {kind : ItemKind} {options : StoreOptions}
    (hr : Reachable kind options r) : r.Faithful := by
  obtain ⟨s, hs, hsteps⟩ := hr
  exact (faithful_new hs).steps hsteps

/-- A held pin shows what the last section up to its generation left. -/
theorem Faithful.viewAt_of_mem_held (h : r.Faithful) {pin : Pin} (hpin : pin ∈ r.clock.held) :
    r.store.viewAt pin.generation = r.viewAsOf pin.generation :=
  h.viewAt_eq pin.generation (h.sound.floor_le_of_mem_held hpin) fun hopen ↦
    h.sound.generation_lt_live hopen hpin

/-! ### The writer's view along a run -/

/-- A collection pass is not seen by the writer. -/
theorem Faithful.live_collect (h : r.Faithful) : r.store.collect.1.live = r.store.live := by
  have hpruned : r.store.collect.1.history.HeadsLE r.clock.live := h.headsLE.prune
  have hle : r.clock.advanceFloor.1.floor ≤ r.clock.live := by
    have hsound := h.sound.advanceFloor
    exact Nat.le_trans hsound.floor_le_newest hsound.newest_le_live
  have hview : r.store.collect.1.history.liveView = r.store.history.liveView := by
    rw [← ContentHistory.viewAt_eq_liveView hpruned (Nat.le_refl _),
      ← ContentHistory.viewAt_eq_liveView h.headsLE (Nat.le_refl _)]
    exact ContentHistory.viewAt_prune hle
  exact congrArg (LiveContent.mk · r.store.index) hview

/-- The writer sees what it has written: only its operations change its view. -/
theorem Faithful.live_step (h : r.Faithful) {u : RecordedStore} (hstep : Step r u) :
    u.store.live = r.store.live ∨
      ∃ call, r.clock.writing = true ∧ u = { r with store := (r.store.perform call).1 } := by
  cases hstep with
  | perform hopen call => exact Or.inr ⟨call, hopen, rfl⟩
  | snapshot =>
    rcases ContentStore.snapshot_eq r.store with hissued | hcollected
    · rw [hissued]
      exact Or.inl rfl
    · rw [hcollected]
      exact Or.inl h.issue.live_collect
  | collect => exact Or.inl h.live_collect
  | _ => exact Or.inl rfl

theorem mem_sections_of_step {u : RecordedStore} (hstep : Step r u)
    {e : Generation × ContentView} (he : e ∈ u.sections) :
    e ∈ r.sections ∨ e.2 = r.store.live.view := by
  cases hstep with
  | closeSection _ =>
    rcases List.mem_append.mp he with hold | hnew
    · exact Or.inl hold
    · exact Or.inr (congrArg Prod.snd (List.mem_singleton.mp hnew))
  | _ => exact Or.inl he

/-- What every operation of a writer keeps holds of the view of the writer in every state of a run,
and of what every section left. -/
theorem Reachable.keeps {kind : ItemKind} {options : StoreOptions} (hr : Reachable kind options r)
    {P : LiveContent → Prop} (inv : EditInvariant P) (hempty : P LiveContent.empty) :
    P r.store.live ∧ ∀ e ∈ r.sections, ∃ l, P l ∧ l.view = e.2 := by
  obtain ⟨s, hs, hsteps⟩ := hr
  have hnew := faithful_new hs
  induction hsteps with
  | refl =>
    refine ⟨?_, fun e he ↦ absurd he List.not_mem_nil⟩
    rw [ContentStore.live_eq_of_create hs]
    exact hempty
  | tail hbefore hstep ih =>
    have hmiddle := hnew.steps hbefore
    constructor
    · rcases hmiddle.live_step hstep with hsame | ⟨call, -, rfl⟩
      · exact hsame ▸ ih.1
      · rw [(ContentStore.perform_follows hmiddle.headsLE call).2.1]
        exact inv.run ih.1 call
    · intro e he
      rcases mem_sections_of_step hstep he with hold | hclosed
      · exact ih.2 e hold
      · exact ⟨_, ih.1, hclosed.symm⟩

/-- What every operation of a writer keeps holds of all that a held pin shows. -/
theorem Reachable.keeps_of_mem_held {kind : ItemKind} {options : StoreOptions}
    (hr : Reachable kind options r) {P : LiveContent → Prop} (inv : EditInvariant P)
    (hempty : P LiveContent.empty) {pin : Pin} (hpin : pin ∈ r.clock.held) :
    ∃ l, P l ∧ l.view = r.store.viewAt pin.generation := by
  rw [hr.faithful.viewAt_of_mem_held hpin]
  rcases r.viewAsOf_eq_empty_or_mem pin.generation with hnone | ⟨e, he, hview⟩
  · exact ⟨LiveContent.empty, hempty, hnone.symm⟩
  · rw [← hview]
    exact (hr.keeps inv hempty).2 e he

/-! ### What later steps leave alone -/

/-- No section that ends later is of a generation that a pin shows. -/
theorem Faithful.viewAsOf_step (h : r.Faithful) {u : RecordedStore} (hstep : Step r u)
    {generation : Generation} (hle : generation ≤ r.clock.newest) :
    u.viewAsOf generation = r.viewAsOf generation := by
  cases hstep with
  | closeSection hopen =>
    have hlive := h.sound.live_eq_of_writing hopen
    rw [viewAsOf_append, if_neg (by lia)]
  | _ => rfl

theorem Faithful.viewAsOf_steps (h : r.Faithful) {u : RecordedStore} (hsteps : Steps r u)
    {generation : Generation} (hle : generation ≤ r.clock.newest) :
    u.viewAsOf generation = r.viewAsOf generation ∧ generation ≤ u.clock.newest := by
  induction hsteps with
  | refl => exact ⟨rfl, hle⟩
  | tail hbefore hstep ih =>
    have hmiddle := h.steps hbefore
    exact ⟨(hmiddle.viewAsOf_step hstep ih.2).trans ih.1,
      Nat.le_trans ih.2 (hmiddle.sound.newest_le_move hstep.engine.move)⟩

theorem Faithful.shows_of_mem_held (h : r.Faithful) {pin : Pin} (hpin : pin ∈ r.clock.held) :
    r.store.Shows pin.generation (r.viewAsOf pin.generation) :=
  h.viewAt_of_mem_held hpin ▸ r.store.shows_viewAt pin.generation

/-- Snapshots are frozen. A held pin shows all tables as the last section up to its generation left
them, and so it does in every later state in which it is still held. Every read of a snapshot is
computed from these tables. -/
theorem Reachable.viewAt_eq_viewAsOf {kind : ItemKind} {options : StoreOptions}
    (hr : Reachable kind options r) {pin : Pin} (hpin : pin ∈ r.clock.held) :
    r.store.viewAt pin.generation = r.viewAsOf pin.generation ∧
      r.store.Shows pin.generation (r.viewAsOf pin.generation) ∧
      ∀ u, Steps r u → pin ∈ u.clock.held →
        u.viewAsOf pin.generation = r.viewAsOf pin.generation ∧
          u.store.viewAt pin.generation = r.viewAsOf pin.generation ∧
          u.store.Shows pin.generation (r.viewAsOf pin.generation) := by
  have h := hr.faithful
  refine ⟨h.viewAt_of_mem_held hpin, h.shows_of_mem_held hpin, fun u hsteps hstill ↦ ?_⟩
  have hnewest := (h.sound.bounds_of_mem_queue (h.sound.queued_of_held pin hpin)).2
  have hsame := (h.viewAsOf_steps hsteps hnewest).1
  have hu := h.steps hsteps
  exact ⟨hsame, (hu.viewAt_of_mem_held hstill).trans hsame, hsame ▸ hu.shows_of_mem_held hstill⟩

/-- The kit of a published page at the top. -/
def page : ContentKit :=
  (ContentKit.new ⟨1⟩ ⟨1⟩ default default).withPublished (ContentData.new "page" 1 true default)

/-- The type of the page. -/
def pageType : ContentType := ContentType.new ⟨1⟩ "page" .content

/-- A store that holds a page since its first section, and its first pin. -/
def pagePinned : RecordedStore :=
  let s : ContentStore := ⟨.content, Engine.new StoreOptions.default, .empty, .empty⟩
  let s := ((s.openSection.perform (.setAllTypes [pageType])).1.perform (.set page)).1
  ⟨s.closeSection.snapshot.1, [(1, s.live.view)]⟩

/-- The page removed in a second section, with a pass behind a second pin. -/
def pageRemoved : RecordedStore :=
  let s := (pagePinned.store.openSection.perform (.clear ⟨1⟩)).1
  ⟨s.closeSection.snapshot.1.collect.1, pagePinned.sections ++ [(2, s.live.view)]⟩

theorem reachable_pagePinned : Reachable .content StoreOptions.default pagePinned :=
  ⟨_, rfl, .tail (.tail (.tail (.tail (.tail .refl (.openSection rfl))
    (.perform rfl (.setAllTypes [pageType]))) (.perform rfl (.set page))) (.closeSection rfl))
    .snapshot⟩

theorem steps_pageRemoved : Steps pagePinned pageRemoved :=
  .tail (.tail (.tail (.tail (.tail .refl (.openSection rfl)) (.perform rfl (.clear ⟨1⟩)))
    (.closeSection rfl)) .snapshot) .collect

/-- The first pin still shows the page, which the writer no longer sees. -/
theorem Reachable.viewAt_eq_viewAsOf_pageRemoved :
    ⟨1, 0⟩ ∈ pagePinned.clock.held ∧ ⟨1, 0⟩ ∈ pageRemoved.clock.held ∧
      (pagePinned.viewAsOf 1).node? ⟨1⟩ = some (.ofKit page pageType []) ∧
      pageRemoved.store.live.view.node? ⟨1⟩ = none ∧
      pageRemoved.store.live.view.isEmpty = true ∧
      (pageRemoved.store.viewAt 1).isEmpty = false ∧
      pageRemoved.store.viewAt 1 = pagePinned.viewAsOf 1 ∧
      pageRemoved.store.Shows 1 (pagePinned.viewAsOf 1) := by
  have hpin : (⟨1, 0⟩ : Pin) ∈ pagePinned.clock.held := by decide +kernel
  have hstill : (⟨1, 0⟩ : Pin) ∈ pageRemoved.clock.held := by decide +kernel
  obtain ⟨-, hview, hshows⟩ :=
    (reachable_pagePinned.viewAt_eq_viewAsOf hpin).2.2 _ steps_pageRemoved hstill
  exact ⟨hpin, hstill, by decide +kernel, by decide +kernel, by decide +kernel, by decide +kernel,
    hview, hshows⟩

end RecordedStore

end VersionedContent
