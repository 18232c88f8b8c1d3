import VersionedContent.Page
import VersionedContent.Proofs.MappedVersions
import VersionedContent.Proofs.StoreRuns

/-!
# Drafts stay out of sight

Nothing that a store does depends on a draft, but for whether a kit is empty: when all drafts are
changed, in the kits and in every version of every node, each step gives the answer that it gave and
leaves what it left, with the drafts changed (`DraftChange.run_service`). One such change hides
every draft. So two runs whose kits differ in drafts only give the same answers, and no page without
preview tells them apart (`PublishedContent.run_sameButDrafts`).
-/

set_option autoImplicit false

namespace VersionedContent

/-! ### Drafts changed throughout a store -/

namespace DraftChange

variable (c : DraftChange)

/-- The tables with every draft changed, in all versions. -/
def history (h : ContentHistory) : ContentHistory := { h with nodes := h.nodes.map c.node }

/-- The writer with every draft changed. -/
def writer (w : ContentWriter) : ContentWriter := { w with history := c.history w.history }

/-- The store with every draft changed. -/
def store (s : ContentStore) : ContentStore := { s with history := c.history s.history }

/-- The view with every draft changed. -/
def view (v : ContentView) : ContentView := { v with nodes := v.nodes.map fun _ ↦ c.node }

/-- Reads and writes of a writer do not depend on drafts. -/
theorem simulation_writer : DraftSimulation c fun w v ↦ v = c.writer w where
  node? := by
    rintro w _ rfl id
    exact w.history.nodes.live?_map c.node id
  setNode := by
    rintro w _ rfl id n
    simp only [LiveTables.setNode, ContentWriter.modify, writer, history, VersionMap.set_map]
  clearNode := by
    rintro w _ rfl id
    simp only [LiveTables.clearNode, ContentWriter.modify, writer, history, VersionMap.clear_map]
  setRoot := by
    rintro w _ rfl id
    rfl
  clearRoot := by
    rintro w _ rfl id
    rfl
  clearTree := by
    rintro w _ rfl
    simp only [LiveTables.clearTree, ContentWriter.modify, writer, history, VersionMap.clearAll_map]
  type? := by
    rintro w _ rfl id
    rfl
  setType := by
    rintro w _ rfl id type
    rfl
  clearType := by
    rintro w _ rfl id
    rfl
  types := by
    rintro w _ rfl
    rfl
  setHandle := by
    rintro w _ rfl handle type
    rfl
  clearHandle := by
    rintro w _ rfl handle
    rfl
  index := by
    rintro w _ rfl
    rfl
  setIndex := by
    rintro w _ rfl i
    rfl

theorem edit_store {α : Type} {s : ContentStore}
    {f g : ContentWriter → ContentWriter × α} (count : α → Metrics → Metrics)
    (h : Agree (fun w v ↦ v = c.writer w) (f s.writer) (g (c.store s).writer)) :
    (c.store s).edit g count = (c.store (s.edit f count).1, (s.edit f count).2) := by
  obtain ⟨hwriter, hanswer⟩ := h
  unfold ContentStore.edit
  dsimp only
  rw [hwriter, ← hanswer]
  rfl

/-- An operation of a writer gives its answer and leaves its state, whatever the drafts are. -/
theorem perform_store (s : ContentStore) (call : WriterCall) :
    (c.store s).perform (c.call call) = (c.store (s.perform call).1, (s.perform call).2) := by
  have hwriter : (c.store s).writer = c.writer s.writer := rfl
  have sim := c.simulation_writer
  have of_edit : ∀ {α : Type} (wrap : α → WriterAnswer) {x y : ContentStore × α},
      y = (c.store x.1, x.2) →
        WriterAnswer.of wrap y = (c.store (WriterAnswer.of wrap x).1, (WriterAnswer.of wrap x).2) :=
    fun wrap _ _ heq ↦ by rw [heq]; rfl
  cases call with
  | set k => exact of_edit _ (c.edit_store _ (sim.set hwriter k))
  | clear id => exact of_edit _ (c.edit_store _ (sim.clear hwriter id))
  | setAll ks => exact of_edit _ (c.edit_store _ (sim.setAll hwriter ks))
  | setBranch root ks => exact of_edit _ (c.edit_store _ (sim.setBranch hwriter root ks))
  | setAllTypes types => exact of_edit _ (c.edit_store _ (sim.setAllTypes hwriter types))
  | updateTypes removed refreshed ks =>
    exact of_edit _ (c.edit_store _ (sim.updateTypes hwriter removed refreshed ks))
  | updateDataTypes ids resolve r =>
    exact of_edit (fun answer ↦ .rebuilt answer.2)
      (c.edit_store (f := (Retype.updateDataTypes · ids resolve r))
        (g := (Retype.updateDataTypes · ids resolve r))
        (fun answer m ↦ m.kitsLoaded answer.2.kits) (sim.updateDataTypes hwriter ids resolve r))

theorem tally_history (h : ContentHistory) : (c.history h).tally = h.tally := by
  funext floor
  unfold ContentHistory.tally history
  rw [VersionMap.tally_map]

theorem collect_store (s : ContentStore) :
    (c.store s).collect = (c.store s.collect.1, s.collect.2) := by
  have hprune : ∀ floor, (c.history s.history).prune floor = c.history (s.history.prune floor) :=
    fun floor ↦ congrArg (fun nodes ↦ { s.history.prune floor with nodes })
      (s.history.nodes.prune_map c.node floor)
  unfold ContentStore.collect
  dsimp only
  rw [show (c.store s).history = c.history s.history from rfl, c.tally_history, hprune]
  rfl

theorem snapshot_store (s : ContentStore) :
    (c.store s).snapshot = (c.store s.snapshot.1, s.snapshot.2) := by
  unfold ContentStore.snapshot
  have hcollect := c.collect_store { s with engine := s.engine.issue.1 }
  dsimp only
  rw [show (c.store s).engine = s.engine from rfl]
  split_ifs
  · exact congrArg (fun result ↦ (result.1, s.engine.issue.2.1)) hcollect
  · rfl

theorem stats_store (s : ContentStore) : (c.store s).stats = s.stats := by
  unfold ContentStore.stats store history
  rw [VersionMap.size_map]
  rfl

theorem viewAt_store (s : ContentStore) (generation : Generation) :
    (c.store s).viewAt generation = c.view (s.viewAt generation) :=
  congrArg (fun nodes ↦ { s.viewAt generation with nodes })
    (s.history.nodes.viewAt_map c.node generation)

end DraftChange

/-! ### Runs of a service -/

/-- One step on a store. -/
inductive StoreCall : Type 1
  | openSection
  | closeSection
  | perform (call : WriterCall)
  | snapshot
  | clone (pin : Pin)
  | release (pin : Pin)
  | collect

/-- What a step on a store tells its caller. -/
inductive StoreAnswer
  | done
  | performed (answer : WriterAnswer)
  | pinned (pin : Pin)
  | collected (stats : CollectStats)
deriving DecidableEq

/-- Carries out a step on a store. -/
def StoreCall.run (s : ContentStore) : StoreCall → ContentStore × StoreAnswer
  | .openSection => (s.openSection, .done)
  | .closeSection => (s.closeSection, .done)
  | .perform call => let (s, answer) := s.perform call; (s, .performed answer)
  | .snapshot => let (s, pin) := s.snapshot; (s, .pinned pin)
  | .clone pin => (s.clone pin, .done)
  | .release pin => (s.release pin, .done)
  | .collect => let (s, stats) := s.collect; (s, .collected stats)

/-- One step on a service: on one of its stores, or with a page. -/
inductive ServiceCall : Type 1
  | content (call : StoreCall)
  | media (call : StoreCall)
  | openPage (preview : Bool)
  | closePage (page : Page)

/-- What a step on a service tells its caller. -/
inductive ServiceAnswer
  | done
  | store (answer : StoreAnswer)
  | opened (page : Page)
deriving DecidableEq

/-- Carries out a step on a service. -/
def ServiceCall.run (s : PublishedContent) : ServiceCall → PublishedContent × ServiceAnswer
  | .content call => let (store, answer) := call.run s.content; (⟨store, s.media⟩, .store answer)
  | .media call => let (store, answer) := call.run s.media; (⟨s.content, store⟩, .store answer)
  | .openPage preview => let (s, page) := s.openPage preview; (s, .opened page)
  | .closePage page => (s.closePage page, .done)

/-- Carries out steps one after another. -/
def PublishedContent.run (s : PublishedContent) :
    List ServiceCall → PublishedContent × List ServiceAnswer
  | [] => (s, [])
  | call :: calls =>
    let (s, answer) := call.run s
    let (s, answers) := s.run calls
    (s, answer :: answers)

namespace DraftChange

variable (c : DraftChange)

/-- The service with every draft changed. -/
def service (s : PublishedContent) : PublishedContent := ⟨c.store s.content, c.store s.media⟩

/-- The step with the drafts of its kits changed. -/
def storeCall : StoreCall → StoreCall
  | .perform call => .perform (c.call call)
  | other => other

/-- The step with the drafts of its kits changed. -/
def serviceCall : ServiceCall → ServiceCall
  | .content call => .content (c.storeCall call)
  | .media call => .media (c.storeCall call)
  | other => other

theorem run_storeCall (s : ContentStore) (call : StoreCall) :
    (c.storeCall call).run (c.store s) = (c.store (call.run s).1, (call.run s).2) := by
  cases call with
  | perform call => simp only [storeCall, StoreCall.run, c.perform_store]
  | snapshot => simp only [storeCall, StoreCall.run, c.snapshot_store]
  | collect => simp only [storeCall, StoreCall.run, c.collect_store]
  | _ => rfl

theorem run_serviceCall (s : PublishedContent) (call : ServiceCall) :
    (c.serviceCall call).run (c.service s) = (c.service (call.run s).1, (call.run s).2) := by
  cases call with
  | content call => simp only [serviceCall, ServiceCall.run, service, c.run_storeCall]
  | media call => simp only [serviceCall, ServiceCall.run, service, c.run_storeCall]
  | openPage preview =>
    simp only [serviceCall, ServiceCall.run, service, PublishedContent.openPage, c.snapshot_store]
  | closePage page => rfl

/-- A run gives its answers and leaves its state, whatever the drafts are. -/
theorem run_service (s : PublishedContent) (calls : List ServiceCall) :
    (c.service s).run (calls.map c.serviceCall) = (c.service (s.run calls).1, (s.run calls).2) := by
  induction calls generalizing s with
  | nil => rfl
  | cons call calls ih =>
    simp only [List.map_cons, PublishedContent.run, c.run_serviceCall, ih]

/-! ### Reads -/

theorem node?_view (v : ContentView) (id : ContentId) :
    (c.view v).node? id = (v.node? id).map c.node :=
  Std.ExtTreeMap.getElem?_map

/-- Siblings stand in the same order, whatever their drafts are. -/
theorem siblings_view (v : ContentView) (ids : List ContentId) :
    (ids.filterMap (c.view v).node?).mergeSort ContentView.siblingLE =
      ((ids.filterMap v.node?).mergeSort ContentView.siblingLE).map c.node := by
  have hsort : ((ids.filterMap v.node?).mergeSort ContentView.siblingLE).map c.node =
      ((ids.filterMap v.node?).map c.node).mergeSort ContentView.siblingLE :=
    List.map_mergeSort fun _ _ _ _ ↦ rfl
  rw [hsort, List.map_filterMap]
  simp only [funext (c.node?_view v)]

theorem atRoot_view (v : ContentView) : (c.view v).atRoot = v.atRoot.map c.node :=
  c.siblings_view v _

theorem children_view (v : ContentView) (id : ContentId) :
    (c.view v).children id = (v.children id).map c.node := by
  unfold ContentView.children
  rw [c.node?_view, Option.map_map]
  exact c.siblings_view v _

/-- The change that hides what is in drafts: beside a published payload there is no draft, and what
is only a draft is one without content. -/
def hidden : DraftChange where
  draft d published :=
    if published.isSome then none else d.map fun _ ↦ ContentData.new "" 0 false default
  isNone_draft d := by simp

end DraftChange

/-! ### Two runs -/

/-- The kit without its draft. -/
def ContentKit.withoutDraft (k : ContentKit) : ContentKit := { k with draft := none }

/-- The node without its draft. -/
def ContentNode.withoutDraft (n : ContentNode) : ContentNode := { n with draft := none }

/-- Two kits that differ in their drafts only, and are both empty or both not. -/
structure ContentKit.SameButDraft (k l : ContentKit) : Prop where
  withoutDraft_eq : k.withoutDraft = l.withoutDraft
  isEmpty_eq : k.isEmpty = l.isEmpty

/-- Two operations of a writer that differ in the drafts of their kits only. -/
inductive WriterCall.SameButDrafts : WriterCall → WriterCall → Prop
  | set {k l : ContentKit} (h : k.SameButDraft l) : SameButDrafts (.set k) (.set l)
  | setAll {ks ls : List ContentKit} (h : List.Forall₂ ContentKit.SameButDraft ks ls) :
    SameButDrafts (.setAll ks) (.setAll ls)
  | setBranch (root : ContentId) {ks ls : List ContentKit}
    (h : List.Forall₂ ContentKit.SameButDraft ks ls) :
    SameButDrafts (.setBranch root ks) (.setBranch root ls)
  | updateTypes (removed : List ContentTypeId) (refreshed : List ContentType)
    {ks ls : List ContentKit} (h : List.Forall₂ ContentKit.SameButDraft ks ls) :
    SameButDrafts (.updateTypes removed refreshed ks) (.updateTypes removed refreshed ls)
  | same (call : WriterCall) : SameButDrafts call call

/-- Two steps on a store that differ in the drafts of their kits only. -/
inductive StoreCall.SameButDrafts : StoreCall → StoreCall → Prop
  | perform {call other : WriterCall} (h : call.SameButDrafts other) :
    SameButDrafts (.perform call) (.perform other)
  | same (call : StoreCall) : SameButDrafts call call

/-- Two steps on a service that differ in the drafts of their kits only. -/
inductive ServiceCall.SameButDrafts : ServiceCall → ServiceCall → Prop
  | content {call other : StoreCall} (h : call.SameButDrafts other) :
    SameButDrafts (.content call) (.content other)
  | media {call other : StoreCall} (h : call.SameButDrafts other) :
    SameButDrafts (.media call) (.media other)
  | same (call : ServiceCall) : SameButDrafts call call

theorem DraftChange.draft_hidden_eq {d e published : Option ContentData}
    (hempty : (d.isNone && published.isNone) = (e.isNone && published.isNone)) :
    hidden.draft d published = hidden.draft e published := by
  cases published with
  | some _ => rfl
  | none => cases d <;> cases e <;> first | rfl | simp at hempty

theorem ContentKit.SameButDraft.kit_hidden {k l : ContentKit} (h : k.SameButDraft l) :
    DraftChange.hidden.kit k = DraftChange.hidden.kit l := by
  obtain ⟨hwithout, hempty⟩ := h
  have hpublished : k.published = l.published := (congrArg ContentKit.published hwithout :)
  have hdraft : DraftChange.hidden.draft k.draft k.published =
      DraftChange.hidden.draft l.draft l.published := by
    unfold ContentKit.isEmpty at hempty
    rw [hpublished] at hempty ⊢
    exact DraftChange.draft_hidden_eq hempty
  exact congrArg₂ (fun (m : ContentKit) draft ↦ { m with draft }) hwithout hdraft

theorem map_kit_hidden {ks ls : List ContentKit} (h : List.Forall₂ ContentKit.SameButDraft ks ls) :
    ks.map DraftChange.hidden.kit = ls.map DraftChange.hidden.kit := by
  induction h with
  | nil => rfl
  | cons hkit _ ih => rw [List.map_cons, List.map_cons, hkit.kit_hidden, ih]

theorem WriterCall.SameButDrafts.call_hidden {call other : WriterCall}
    (h : call.SameButDrafts other) :
    DraftChange.hidden.call call = DraftChange.hidden.call other := by
  cases h with
  | set hkit => exact congrArg WriterCall.set hkit.kit_hidden
  | setAll hkits => exact congrArg WriterCall.setAll (map_kit_hidden hkits)
  | setBranch root hkits => exact congrArg (WriterCall.setBranch root) (map_kit_hidden hkits)
  | updateTypes removed refreshed hkits =>
    exact congrArg (WriterCall.updateTypes removed refreshed) (map_kit_hidden hkits)
  | same call => rfl

theorem StoreCall.SameButDrafts.storeCall_hidden {call other : StoreCall}
    (h : call.SameButDrafts other) :
    DraftChange.hidden.storeCall call = DraftChange.hidden.storeCall other := by
  cases h with
  | perform hcall => exact congrArg StoreCall.perform hcall.call_hidden
  | same call => rfl

theorem ServiceCall.SameButDrafts.serviceCall_hidden {call other : ServiceCall}
    (h : call.SameButDrafts other) :
    DraftChange.hidden.serviceCall call = DraftChange.hidden.serviceCall other := by
  cases h with
  | content hcall => exact congrArg ServiceCall.content hcall.storeCall_hidden
  | media hcall => exact congrArg ServiceCall.media hcall.storeCall_hidden
  | same call => rfl

namespace Page

variable {p : Page} {v w : ContentView} {c : DraftChange}

/-- What a reader of a page can tell of a node that it shows, besides the draft: the node and the
payload that the page shows. -/
def shown (p : Page) (n : ContentNode) : ContentNode × Option ContentData :=
  (n.withoutDraft, p.data? n)

/-- Two trees look the same on a page: it shows the same nodes in the same order, each with the same
payload. -/
structure ShowsSame (p : Page) (v w : ContentView) : Prop where
  node? : ∀ id, (p.node? v id).map p.shown = (p.node? w id).map p.shown
  atRoot : (p.atRoot v).map p.shown = (p.atRoot w).map p.shown
  children : ∀ id, (p.children v id).map p.shown = (p.children w id).map p.shown

theorem shown_node (hpublished : p.preview = false) (n : ContentNode) :
    p.shown (c.node n) = p.shown n := by
  simp only [shown, data?, hpublished]
  rfl

theorem shows_node (hpublished : p.preview = false) (n : ContentNode) :
    p.shows (c.node n) = p.shows n := by
  simp only [shows, data?, hpublished]
  rfl

/-- A page without preview shows no change of drafts. -/
theorem showsSame_view (hpublished : p.preview = false) : p.ShowsSame (c.view v) v := by
  have hshown : p.shown ∘ c.node = p.shown := funext (shown_node hpublished)
  have hshows : p.shows ∘ c.node = p.shows := funext (shows_node hpublished)
  refine ⟨fun id ↦ ?_, ?_, fun id ↦ ?_⟩
  · unfold node?
    rw [c.node?_view, Option.filter_map, Option.map_map, hshown, hshows]
  · unfold atRoot
    rw [c.atRoot_view, List.filter_map, List.map_map, hshown, hshows]
  · unfold children
    rw [c.children_view, List.filter_map, List.map_map, hshown, hshows]

theorem ShowsSame.symm (h : p.ShowsSame v w) : p.ShowsSame w v :=
  ⟨fun id ↦ (h.node? id).symm, h.atRoot.symm, fun id ↦ (h.children id).symm⟩

theorem ShowsSame.trans {u : ContentView} (h : p.ShowsSame v w) (h' : p.ShowsSame w u) :
    p.ShowsSame v u :=
  ⟨fun id ↦ (h.node? id).trans (h'.node? id), h.atRoot.trans h'.atRoot,
    fun id ↦ (h.children id).trans (h'.children id)⟩

theorem showsSame_of_view_eq (hpublished : p.preview = false) (h : c.view v = c.view w) :
    p.ShowsSame v w :=
  (h ▸ (showsSame_view hpublished).symm : p.ShowsSame v (c.view w)).trans
    (showsSame_view hpublished)

end Page

namespace PublishedContent

/-- Two runs of a service whose kits differ in drafts only give the same answers at every step, and
leave the same counters; and what they leave looks the same on every page without preview, in
particular on one that both have opened. -/
theorem run_sameButDrafts {calls others : List ServiceCall}
    (h : List.Forall₂ ServiceCall.SameButDrafts calls others) (s : PublishedContent) :
    (s.run calls).2 = (s.run others).2 ∧ (s.run calls).1.metrics = (s.run others).1.metrics ∧
      (s.run calls).1.content.stats = (s.run others).1.content.stats ∧
      (s.run calls).1.media.stats = (s.run others).1.media.stats ∧
      ∀ p : Page, p.preview = false →
        p.ShowsSame ((s.run calls).1.contentView p) ((s.run others).1.contentView p) ∧
          p.ShowsSame ((s.run calls).1.mediaView p) ((s.run others).1.mediaView p) := by
  have hcalls : calls.map DraftChange.hidden.serviceCall =
      others.map DraftChange.hidden.serviceCall := by
    induction h with
    | nil => rfl
    | cons hcall _ ih => rw [List.map_cons, List.map_cons, hcall.serviceCall_hidden, ih]
  have hruns := DraftChange.hidden.run_service s calls
  rw [hcalls, DraftChange.hidden.run_service s others, Prod.mk.injEq] at hruns
  obtain ⟨hleft, hanswers⟩ := hruns
  have hcontent := congrArg PublishedContent.content hleft
  have hmedia := congrArg PublishedContent.media hleft
  refine ⟨hanswers.symm, (congrArg metrics hleft).symm, ?_, ?_, fun p hp ↦ ⟨?_, ?_⟩⟩
  · have hstats := congrArg ContentStore.stats hcontent
    simpa only [DraftChange.service, DraftChange.stats_store] using hstats.symm
  · have hstats := congrArg ContentStore.stats hmedia
    simpa only [DraftChange.service, DraftChange.stats_store] using hstats.symm
  · have hview := congrArg (·.viewAt p.content.generation) hcontent
    simp only [DraftChange.service, DraftChange.viewAt_store] at hview
    exact Page.showsSame_of_view_eq hp hview.symm
  · have hview := congrArg (·.viewAt p.media.generation) hmedia
    simp only [DraftChange.service, DraftChange.viewAt_store] at hview
    exact Page.showsSame_of_view_eq hp hview.symm

/-- The page with a draft of some name beside what is published. -/
def pageDrafted (name : String) : ContentKit :=
  RecordedStore.page.withDraft (ContentData.new name 2 false default)

/-- A page below it that is only a draft. -/
def pageUnpublished (name : String) : ContentKit :=
  { pageDrafted name with id := ⟨2⟩, parentId := some ⟨1⟩, published := none }

/-- What storing both pages in a new service leaves, and the answers; at last a view is opened. -/
def draftedRun (name : String) : PublishedContent × List ServiceAnswer :=
  let s : PublishedContent := ⟨⟨.content, Engine.new StoreOptions.default, .empty, .empty⟩,
    ⟨.media, Engine.new StoreOptions.default, .empty, .empty⟩⟩
  s.run [.content .openSection, .content (.perform (.setAllTypes [RecordedStore.pageType])),
    .content (.perform (.set (pageDrafted name))),
    .content (.perform (.set (pageUnpublished name))), .content .closeSection, .openPage false]

/-- The view that is opened at last, or the like with preview. -/
def openedPage (preview : Bool) : Page := ⟨⟨1, 0⟩, ⟨0, 0⟩, preview⟩

/-- Two runs that differ in the names of drafts look the same without preview, which shows the page
that is published and not the one that is only a draft. With preview they do not. -/
theorem run_sameButDrafts_draftedRun :
    (draftedRun "first").2 = (draftedRun "second").2 ∧
      (draftedRun "first").2.getLast? = some (.opened (openedPage false)) ∧
      (openedPage false).ShowsSame ((draftedRun "first").1.contentView (openedPage false))
        ((draftedRun "second").1.contentView (openedPage false)) ∧
      (openedPage false).node? ((draftedRun "first").1.contentView (openedPage false)) ⟨1⟩ ≠ none ∧
      (openedPage false).node? ((draftedRun "first").1.contentView (openedPage false)) ⟨2⟩ = none ∧
      ¬(openedPage true).ShowsSame ((draftedRun "first").1.contentView (openedPage true))
        ((draftedRun "second").1.contentView (openedPage true)) := by
  have hdrafted : (pageDrafted "first").SameButDraft (pageDrafted "second") := ⟨rfl, rfl⟩
  have hunpublished : (pageUnpublished "first").SameButDraft (pageUnpublished "second") :=
    ⟨rfl, rfl⟩
  obtain ⟨hanswers, -, -, -, hpages⟩ := run_sameButDrafts (.cons (.same (.content .openSection))
    (.cons (.same (.content (.perform (.setAllTypes [RecordedStore.pageType]))))
      (.cons (.content (.perform (.set hdrafted))) (.cons (.content (.perform (.set hunpublished)))
        (.cons (.same (.content .closeSection)) (.cons (.same (.openPage false)) .nil))))))
    ⟨⟨.content, Engine.new StoreOptions.default, .empty, .empty⟩,
      ⟨.media, Engine.new StoreOptions.default, .empty, .empty⟩⟩
  refine ⟨hanswers, by decide +kernel, (hpages (openedPage false) rfl).1, by decide +kernel,
    by decide +kernel, fun hsame ↦ ?_⟩
  have hnode := hsame.node? ⟨1⟩
  revert hnode
  decide +kernel

end PublishedContent

end VersionedContent
