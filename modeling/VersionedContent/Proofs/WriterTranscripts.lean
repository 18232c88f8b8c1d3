import VersionedContent.Proofs.Removals

/-!
# What a writer is told

`StoreTranscript` keeps, beside a store, the operations that its writers asked for so far, each with
the answer it gave. Plain tables without any versions are the reference: carrying out the same
operations on them one after another gives the same answers, and leaves them with the same reads, as
the store has for its writer (`StoreTranscript.Reachable.answers_eq_runEach`). So the answers and
the reads depend on the operations alone, and not on the sections they are grouped into, on the
snapshots, releases and collection passes in between, or on the options of the store.
-/

set_option autoImplicit false

namespace VersionedContent

/-! ### The reference -/

/-- Carries out operations one after another; gives the answers, in this order. -/
def WriterCall.runEach {σ : Type} [LiveTables σ] (s : σ) (calls : List WriterCall) :
    σ × List WriterAnswer :=
  calls.foldl (fun (s, answers) call ↦ let (s, answer) := call.run s; (s, answers ++ [answer]))
    (s, [])

theorem WriterCall.runEach_concat {σ : Type} [LiveTables σ] (s : σ) (calls : List WriterCall)
    (call : WriterCall) :
    runEach s (calls ++ [call]) =
      ((call.run (runEach s calls).1).1,
        (runEach s calls).2 ++ [(call.run (runEach s calls).1).2]) := by
  rw [runEach, List.foldl_append]
  rfl

/-- Two states have the same reads for a writer: the nodes, the content types by id and by short
name, the nodes of every type, and the child ids in order. -/
structure ReadsAgree {σ τ : Type} [LiveTables σ] [LiveTables τ] (s : σ) (t : τ) : Prop where
  node? : ∀ id, LiveTables.node? s id = LiveTables.node? t id
  type? : ∀ id, LiveTables.type? s id = LiveTables.type? t id
  typeNamed? : ∀ handle, LiveTables.typeNamed? s handle = LiveTables.typeNamed? t handle
  nodesOf : ∀ type, (LiveTables.index s).nodesOf type = (LiveTables.index t).nodesOf type
  childIds : ∀ id, Edit.childIds s id = Edit.childIds t id

namespace ReadsAgree

variable {σ τ υ : Type} [LiveTables σ] [LiveTables τ] [LiveTables υ] {s : σ} {t : τ} {u : υ}

theorem symm (h : ReadsAgree s t) : ReadsAgree t s :=
  ⟨fun id ↦ (h.node? id).symm, fun id ↦ (h.type? id).symm, fun handle ↦ (h.typeNamed? handle).symm,
    fun type ↦ (h.nodesOf type).symm, fun id ↦ (h.childIds id).symm⟩

theorem trans (h : ReadsAgree s t) (h' : ReadsAgree t u) : ReadsAgree s u :=
  ⟨fun id ↦ (h.node? id).trans (h'.node? id), fun id ↦ (h.type? id).trans (h'.type? id),
    fun handle ↦ (h.typeNamed? handle).trans (h'.typeNamed? handle),
    fun type ↦ (h.nodesOf type).trans (h'.nodesOf type),
    fun id ↦ (h.childIds id).trans (h'.childIds id)⟩

end ReadsAgree

/-- A writer of versioned tables reads what the plain tables of its view hold. -/
theorem ContentWriter.readsAgree_live (w : ContentWriter) : ReadsAgree w w.live := by
  have hnode : ∀ id, LiveTables.node? w id = LiveTables.node? w.live id := fun id ↦
    (VersionMap.getElem?_liveView w.history.nodes id).symm
  exact ⟨hnode, fun id ↦ (VersionMap.getElem?_liveView w.history.types id).symm,
    fun handle ↦ (VersionMap.getElem?_liveView w.history.typesByHandle handle).symm, fun _ ↦ rfl,
    fun id ↦ by rw [Edit.childIds, Edit.childIds, hnode]⟩

/-- A snapshot is not seen by the writer, whether or not it starts a collection pass. -/
theorem RecordedStore.Faithful.live_snapshot {r : RecordedStore} (h : r.Faithful) :
    r.store.snapshot.1.live = r.store.live := by
  rcases ContentStore.snapshot_eq r.store with hissued | hcollected
  · rw [hissued]
    rfl
  · rw [hcollected]
    exact h.issue.live_collect

/-! ### Transcripts of runs -/

/-- A store in a run, beside the operations asked for so far, each with its answer. -/
structure StoreTranscript where
  recorded : RecordedStore
  log : List (WriterCall × WriterAnswer)

namespace StoreTranscript

/-- The store. -/
def store (t : StoreTranscript) : ContentStore := t.recorded.store

/-- The clock of the store. -/
def clock (t : StoreTranscript) : Clock := t.recorded.clock

/-- The operations asked for. -/
def calls (t : StoreTranscript) : List WriterCall := t.log.map Prod.fst

/-- The answers they gave. -/
def answers (t : StoreTranscript) : List WriterAnswer := t.log.map Prod.snd

/-- The transcript with another state of the store, when no operation was asked for. -/
def withStore (t : StoreTranscript) (store : ContentStore) : StoreTranscript :=
  { t with recorded := { t.recorded with store } }

/-- The transcript after the end of the open section. -/
def closeSection (t : StoreTranscript) : StoreTranscript :=
  { t with
    recorded := ⟨t.store.closeSection,
      t.recorded.sections ++ [(t.clock.live, t.store.live.view)]⟩ }

/-- The transcript after an operation that was asked for, and carried out as an operation that may
be another. -/
def answered (t : StoreTranscript) (asked carriedOut : WriterCall) : StoreTranscript where
  recorded := { t.recorded with store := (t.store.perform carriedOut).1 }
  log := t.log ++ [(asked, (t.store.perform carriedOut).2)]

@[simp] theorem calls_withStore (t : StoreTranscript) (store : ContentStore) :
    (t.withStore store).calls = t.calls := rfl

@[simp] theorem calls_answered (t : StoreTranscript) (asked carriedOut : WriterCall) :
    (t.answered asked carriedOut).calls = t.calls ++ [asked] := by
  rw [calls, answered, List.map_append]
  rfl

/-- One step of a run. Replacing the whole set of content types removes those not given in any
order: the table of types has none of its own. -/
inductive Step : StoreTranscript → StoreTranscript → Prop
  | openSection {t : StoreTranscript} (hclosed : t.clock.writing = false) :
    Step t (t.withStore t.store.openSection)
  | closeSection {t : StoreTranscript} (hopen : t.clock.writing = true) : Step t t.closeSection
  | perform {t : StoreTranscript} (hopen : t.clock.writing = true) (call : WriterCall) :
    Step t (t.answered call call)
  | setAllTypes {t : StoreTranscript} (hopen : t.clock.writing = true) {types : List ContentType}
    {removed : List ContentTypeId} (hperm : removed.Perm (Retype.superseded t.store.writer types)) :
    Step t (t.answered (.setAllTypes types) (.updateTypes removed types []))
  | snapshot {t : StoreTranscript} : Step t (t.withStore t.store.snapshot.1)
  | clone {t : StoreTranscript} {pin : Pin} (hheld : pin ∈ t.clock.held) :
    Step t (t.withStore (t.store.clone pin))
  | release {t : StoreTranscript} {pin : Pin} (hheld : pin ∈ t.clock.held) :
    Step t (t.withStore (t.store.release pin))
  | collect {t : StoreTranscript} : Step t (t.withStore t.store.collect.1)

/-- The transcripts of the runs that start with a new store. -/
def Reachable (kind : ItemKind) (options : StoreOptions) (t : StoreTranscript) : Prop :=
  ∃ s, ContentStore.create kind options = .ok s ∧
    Relation.ReflTransGen Step ⟨⟨s, []⟩, []⟩ t

variable {kind : ItemKind} {options : StoreOptions} {t u : StoreTranscript}

theorem Step.recorded (hstep : Step t u) : RecordedStore.Step t.recorded u.recorded := by
  cases hstep with
  | openSection hclosed => exact .openSection hclosed
  | closeSection hopen => exact .closeSection hopen
  | perform hopen call => exact .perform hopen call
  | setAllTypes hopen _ => exact .perform hopen _
  | snapshot => exact .snapshot
  | clone hheld => exact .clone hheld
  | release hheld => exact .release hheld
  | collect => exact .collect

theorem Reachable.recorded (ht : Reachable kind options t) :
    RecordedStore.Reachable kind options t.recorded := by
  obtain ⟨s, hs, hsteps⟩ := ht
  exact ⟨s, hs, hsteps.lift StoreTranscript.recorded fun _ _ ↦ Step.recorded⟩

theorem Reachable.step (ht : Reachable kind options t) (hstep : Step t u) :
    Reachable kind options u := by
  obtain ⟨s, hs, hsteps⟩ := ht
  exact ⟨s, hs, hsteps.tail hstep⟩

/-! ### Sections of operations -/

/-- The transcript of a new store. -/
def new (kind : ItemKind) (options : StoreOptions) : StoreTranscript :=
  ⟨⟨⟨kind, Engine.new options, .empty, .empty⟩, []⟩, []⟩

/-- Operations one after another in the open section. -/
def answeredEach (t : StoreTranscript) (calls : List WriterCall) : StoreTranscript :=
  calls.foldl (fun t call ↦ t.answered call call) t

/-- Operations in one section. -/
def inOneSection (t : StoreTranscript) (calls : List WriterCall) : StoreTranscript :=
  ((t.withStore t.store.openSection).answeredEach calls).closeSection

/-- The transcript after the release of the third newest pin. -/
def releaseThird (t : StoreTranscript) : StoreTranscript :=
  match t.clock.held with
  | _ :: _ :: pin :: _ => t.withStore (t.store.release pin)
  | _ => t

/-- Operations in sections of their own, with a snapshot and a collection pass behind each. The
newest two snapshots are held. -/
def inOwnSections (t : StoreTranscript) (calls : List WriterCall) : StoreTranscript :=
  calls.foldl (fun t call ↦
    let t := t.inOneSection [call]
    let t := (t.withStore t.store.snapshot.1).releaseThird
    t.withStore t.store.collect.1) t

@[simp] theorem calls_new (kind : ItemKind) (options : StoreOptions) :
    (new kind options).calls = [] := rfl

@[simp] theorem calls_answeredEach (t : StoreTranscript) (calls : List WriterCall) :
    (t.answeredEach calls).calls = t.calls ++ calls := by
  induction calls generalizing t with
  | nil => exact (List.append_nil _).symm
  | cons call calls ih =>
    rw [answeredEach, List.foldl_cons, ← answeredEach, ih, calls_answered, List.append_assoc]
    rfl

theorem store_answeredEach (t : StoreTranscript) (calls : List WriterCall) :
    (t.answeredEach calls).store = calls.foldl (fun s call ↦ (s.perform call).1) t.store := by
  induction calls generalizing t with
  | nil => rfl
  | cons call calls ih => exact ih (t.answered call call)

@[simp] theorem calls_inOneSection (t : StoreTranscript) (calls : List WriterCall) :
    (t.inOneSection calls).calls = t.calls ++ calls :=
  calls_answeredEach _ calls

@[simp] theorem calls_releaseThird (t : StoreTranscript) : t.releaseThird.calls = t.calls := by
  unfold releaseThird
  split <;> rfl

@[simp] theorem calls_inOwnSections (t : StoreTranscript) (calls : List WriterCall) :
    (t.inOwnSections calls).calls = t.calls ++ calls := by
  induction calls generalizing t with
  | nil => exact (List.append_nil _).symm
  | cons call calls ih =>
    rw [inOwnSections, List.foldl_cons, ← inOwnSections, ih, calls_withStore, calls_releaseThird,
      calls_withStore, calls_inOneSection, List.append_assoc]
    rfl

theorem Reachable.answeredEach (ht : Reachable kind options t) (hopen : t.clock.writing = true)
    (calls : List WriterCall) :
    Reachable kind options (t.answeredEach calls) ∧
      (t.answeredEach calls).clock.writing = true := by
  induction calls generalizing t with
  | nil => exact ⟨ht, hopen⟩
  | cons call calls ih =>
    have hclock : (t.answered call call).clock = t.clock := (t.store.perform_eq call).2.2.2
    exact ih (ht.step (.perform hopen call)) (hclock ▸ hopen)

theorem Reachable.inOneSection (ht : Reachable kind options t) (hclosed : t.clock.writing = false)
    (calls : List WriterCall) : Reachable kind options (t.inOneSection calls) := by
  obtain ⟨hlast, hopen⟩ :=
    (ht.step (.openSection hclosed)).answeredEach (Clock.writing_openSection t.clock) calls
  exact hlast.step (.closeSection hopen)

theorem Reachable.releaseThird (ht : Reachable kind options t) :
    Reachable kind options t.releaseThird ∧
      t.releaseThird.clock.writing = t.clock.writing := by
  unfold StoreTranscript.releaseThird
  split
  · next hheld => exact ⟨ht.step (.release (by simp [hheld])), rfl⟩
  · exact ⟨ht, rfl⟩

theorem Reachable.inOwnSections (ht : Reachable kind options t)
    (hclosed : t.clock.writing = false) (calls : List WriterCall) :
    Reachable kind options (t.inOwnSections calls) := by
  induction calls generalizing t with
  | nil => exact ht
  | cons call calls ih =>
    obtain ⟨hreleased, hwriting⟩ := ((ht.inOneSection hclosed [call]).step .snapshot).releaseThird
    have hsnapshot := (t.inOneSection [call]).store.issuesTo_snapshot.writing_eq
    exact ih (hreleased.step .collect) (hwriting.trans hsnapshot)

/-! ### The store and the reference -/

/-- The answers so far and the view of the writer are those of the plain tables. -/
structure Plain (t : StoreTranscript) : Prop where
  live_eq : t.store.live = (WriterCall.runEach LiveContent.empty t.calls).1
  answers_eq : t.answers = (WriterCall.runEach LiveContent.empty t.calls).2

theorem Plain.withStore (h : t.Plain) {store : ContentStore} (hlive : store.live = t.store.live) :
    (t.withStore store).Plain :=
  ⟨hlive.trans h.live_eq, h.answers_eq⟩

/-- An operation may be carried out as any other one that does the same to plain tables. -/
theorem Plain.answered (h : t.Plain) (hheads : t.store.history.HeadsLE t.store.clock.live)
    {asked carriedOut : WriterCall}
    (hsame : carriedOut.run t.store.live = asked.run t.store.live) :
    (t.answered asked carriedOut).Plain := by
  obtain ⟨-, hlive, hanswer, -⟩ := ContentStore.perform_follows hheads carriedOut
  have hrun : WriterCall.runEach LiveContent.empty (t.answered asked carriedOut).calls =
      ((asked.run t.store.live).1, t.answers ++ [(asked.run t.store.live).2]) := by
    rw [h.live_eq, h.answers_eq, ← WriterCall.runEach_concat, calls_answered]
  refine ⟨?_, ?_⟩
  · rw [hrun, ← hsame, ← hlive]
    rfl
  · rw [hrun, ← hsame, ← hanswer, StoreTranscript.answers, StoreTranscript.answered,
      List.map_append]
    rfl

/-- Replacing the whole set of content types does the same whatever the order in which it removes
the types that are not given. -/
theorem setAllTypes_run {s : LiveContent} (h : s.Sound) {types : List ContentType}
    {removed : List ContentTypeId} (hperm : removed.Perm (Retype.superseded s types)) :
    (WriterCall.updateTypes removed types []).run s = (WriterCall.setAllTypes types).run s :=
  congrArg (WriterAnswer.of .rebuilt) (h.updateTypes_perm hperm types [])

theorem Plain.step (h : t.Plain) (hr : RecordedStore.Reachable kind options t.recorded)
    (hstep : Step t u) : u.Plain := by
  have hfaithful := hr.faithful
  cases hstep with
  | perform _ call => exact h.answered hfaithful.headsLE rfl
  | setAllTypes _ hperm =>
    have hsound := (hr.keeps LiveContent.sound_invariant LiveContent.sound_empty).1
    exact h.answered hfaithful.headsLE (setAllTypes_run hsound hperm)
  | snapshot => exact h.withStore hfaithful.live_snapshot
  | collect => exact h.withStore hfaithful.live_collect
  | closeSection _ => exact ⟨h.live_eq, h.answers_eq⟩
  | _ => exact h.withStore rfl

theorem Reachable.plain (ht : Reachable kind options t) : t.Plain := by
  obtain ⟨s, hs, hsteps⟩ := ht
  induction hsteps with
  | refl => exact ⟨ContentStore.live_eq_of_create hs, rfl⟩
  | tail hbefore hstep ih =>
    have hr : Reachable kind options _ := ⟨s, hs, hbefore⟩
    exact ih.step hr.recorded hstep

/-- Versions are invisible to writers. In every run all answers so far are those that the same
operations give one after another on plain tables, and the reads that the store has for its writer
are those of the plain tables that the operations leave. Two runs with the same operations have the
same answers and the same reads for their writers. -/
theorem Reachable.answers_eq_runEach (ht : Reachable kind options t) :
    t.answers = (WriterCall.runEach LiveContent.empty t.calls).2 ∧
      ReadsAgree t.store.writer (WriterCall.runEach LiveContent.empty t.calls).1 ∧
      ∀ {otherKind : ItemKind} {otherOptions : StoreOptions} {u : StoreTranscript},
        Reachable otherKind otherOptions u → u.calls = t.calls →
          u.answers = t.answers ∧ ReadsAgree u.store.writer t.store.writer := by
  have hreads : ∀ {otherKind : ItemKind} {otherOptions : StoreOptions} {u : StoreTranscript},
      Reachable otherKind otherOptions u →
        ReadsAgree u.store.writer (WriterCall.runEach LiveContent.empty u.calls).1 := fun hu ↦
    hu.plain.live_eq ▸ ContentWriter.readsAgree_live _
  refine ⟨ht.plain.answers_eq, hreads ht, fun hu hcalls ↦ ⟨?_, ?_⟩⟩
  · rw [hu.plain.answers_eq, hcalls, ht.plain.answers_eq]
  · exact (hcalls ▸ hreads hu).trans (hreads ht).symm

/-- Pages are stored, removed, loaded and rebuilt, with each kind of operation. -/
def pageCalls : List WriterCall :=
  let page := RecordedStore.page
  let below : ContentKit := { page with id := ⟨2⟩, parentId := some ⟨1⟩, level := 2 }
  let type := RecordedStore.pageType
  [.setAllTypes [type], .set page, .clear ⟨1⟩, .set page, .setBranch ⟨2⟩ [below], .setAll [page],
    .updateTypes [⟨9⟩] [type.withProperty "body" ⟨8⟩ ""] [page],
    .updateDataTypes [⟨8⟩] (fun (asked : Nat) type ↦ (asked + 1, some { type with handle := "" }))
      0]

/-- The options of a store that starts no collection pass by itself. -/
def byHand : StoreOptions := { StoreOptions.default with collect := ⟨false, 0⟩ }

/-- The operations on pages in one section. -/
def pageInOneSection : StoreTranscript :=
  (new .content StoreOptions.default).inOneSection pageCalls

/-- The operations on pages in sections of their own, in another store. -/
def pageInOwnSections : StoreTranscript := (new .media byHand).inOwnSections pageCalls

theorem reachable_pageInOneSection :
    Reachable .content StoreOptions.default pageInOneSection :=
  Reachable.inOneSection ⟨_, rfl, .refl⟩ rfl pageCalls

theorem reachable_pageInOwnSections : Reachable .media byHand pageInOwnSections :=
  Reachable.inOwnSections ⟨_, rfl, .refl⟩ rfl pageCalls

/-- After one section the page has one version. After sections of their own it has those from the
floor on, and nothing is left of the page that was below it. Answers and reads are the same. -/
theorem Reachable.answers_eq_runEach_pageCalls :
    pageInOwnSections.calls = pageInOneSection.calls ∧
      pageInOwnSections.answers = pageInOneSection.answers ∧
      ReadsAgree pageInOwnSections.store.writer pageInOneSection.store.writer ∧
      pageInOneSection.answers = [.rebuilt ⟨0, 1, 0, 0, LoadReport.zero⟩, .outcome .inserted,
        .found true, .outcome .inserted, .loaded ⟨1, 0, 0, 0⟩, .loaded ⟨1, 0, 0, 0⟩,
        .rebuilt ⟨0, 1, 0, 0, ⟨1, 0, 0, 0⟩⟩, .rebuilt ⟨0, 1, 0, 1, LoadReport.zero⟩] ∧
      pageInOneSection.store.history.nodes.generations ⟨1⟩ = [1] ∧
      pageInOwnSections.store.history.nodes.generations ⟨1⟩ = [8, 7, 6] ∧
      pageInOwnSections.store.history.nodes.generations ⟨2⟩ = [] := by
  have hcalls : pageInOwnSections.calls = pageInOneSection.calls := by
    simp [pageInOwnSections, pageInOneSection]
  obtain ⟨hanswers, hreads⟩ :=
    reachable_pageInOneSection.answers_eq_runEach.2.2 reachable_pageInOwnSections hcalls
  refine ⟨hcalls, hanswers, hreads, ?_, ?_, ?_, ?_⟩ <;> decide +kernel

end StoreTranscript

end VersionedContent
