import VersionedContent.Proofs.DictionaryRuns
import VersionedContent.Proofs.StoreRuns

/-!
# What a new snapshot shows

A new snapshot shows what the sections that have ended left, and nothing of an open one. Its pin is
of the newest generation without unfinished writes, though, and a section that is opened before the
last one is pinned works at the generation of that one. While such a section is open, the snapshot
shows none of the ended sections of its generation: it shows what the sections of earlier
generations left. This is the only case in which an ended section is missed, for a store and for a
dictionary (`snapshot_showsEnded`).
-/

set_option autoImplicit false

namespace VersionedContent

/-! ### Ended sections -/

section Ended

variable {ν : Type} {c : Clock} {start : ν} {sections : List (Generation × ν)}

/-- What the last of some ended sections left, or what there was at the start. -/
def lastLeft (start : ν) (sections : List (Generation × ν)) : ν :=
  (sections.getLast?.map Prod.snd).getD start

/-- The ended sections of the generations up to a given one. -/
def sectionsUpTo (sections : List (Generation × ν)) (generation : Generation) :
    List (Generation × ν) :=
  sections.filter fun e ↦ decide (e.1 ≤ generation)

/-- Whether the open section works at the generation of one that has ended. -/
def Clock.SharesGeneration (c : Clock) (sections : List (Generation × ν)) : Prop :=
  c.writing = true ∧ ∃ e ∈ sections, e.1 = c.live

/-- What a new snapshot shows of the ended sections: all of them, unless the open section shares its
generation with one; then it shows those of earlier generations. -/
structure ShowsEnded (c : Clock) (start : ν) (sections : List (Generation × ν)) (shown : ν) :
    Prop where
  eq_of_not_shares : ¬c.SharesGeneration sections → shown = lastLeft start sections
  eq_of_shares : c.SharesGeneration sections →
    shown = lastLeft start (sections.filter fun e ↦ decide (e.1 < c.live))

theorem lastLeft_append (live generation : Generation) (v : ν) :
    lastLeft start (sectionsUpTo (sections ++ [(live, v)]) generation) =
      if live ≤ generation then v else lastLeft start (sectionsUpTo sections generation) := by
  unfold lastLeft sectionsUpTo
  by_cases hle : live ≤ generation <;> simp [List.filter_append, hle]

/-- What the ended sections up to the newest complete generation left is what a new snapshot is to
show. Assumes: no section has ended above the live generation. -/
theorem showsEnded_of_eq (h : c.Sound) (hle : ∀ e ∈ sections, e.1 ≤ c.live) {shown : ν}
    (hshown : shown = lastLeft start (sectionsUpTo sections c.complete)) :
    ShowsEnded c start sections shown := by
  constructor
  · intro hnot
    have hall : sectionsUpTo sections c.complete = sections := by
      refine List.filter_eq_self.mpr fun e he ↦ decide_eq_true ?_
      cases hopen : c.writing with
      | false => exact (Clock.complete_of_closed hopen).symm ▸ hle e he
      | true =>
        refine (h.le_complete_iff hopen).mpr (lt_of_le_of_ne (hle e he) fun heq ↦ ?_)
        exact hnot ⟨hopen, e, he, heq⟩
    rw [hshown, hall]
  · rintro ⟨hopen, -⟩
    simp only [hshown, sectionsUpTo, h.le_complete_iff hopen]

end Ended

/-! ### Stores -/

namespace RecordedStore

variable {r u : RecordedStore}

/-- No section has ended above the live generation. -/
theorem Reachable.sections_le_live {kind : ItemKind} {options : StoreOptions}
    (hr : Reachable kind options r) : ∀ e ∈ r.sections, e.1 ≤ r.clock.live := by
  obtain ⟨s, -, hsteps⟩ := hr
  induction hsteps with
  | refl => exact fun e he ↦ absurd he List.not_mem_nil
  | tail _ hstep ih =>
    intro e he
    have hlive := hstep.engine.move.live_le
    cases hstep with
    | closeSection _ =>
      rcases List.mem_append.mp he with hold | hnew
      · exact ih e hold
      · rw [List.mem_singleton.mp hnew]
        exact Nat.le_refl _
    | _ => exact Nat.le_trans (ih e he) hlive

theorem Reachable.showsEnded {kind : ItemKind} {options : StoreOptions}
    (hr : Reachable kind options r) :
    ShowsEnded r.clock ContentView.empty r.sections
      (r.store.snapshot.1.viewAt r.store.snapshot.2.generation) := by
  refine showsEnded_of_eq hr.faithful.sound hr.sections_le_live ?_
  have hafter : Faithful { r with store := r.store.snapshot.1 } := hr.faithful.step .snapshot
  have hgeneration : r.store.snapshot.2.generation = r.clock.complete :=
    Clock.generation_issue r.clock
  rw [← hgeneration]
  exact hafter.viewAt_of_mem_held r.store.issuesTo_snapshot.issue_mem_held

end RecordedStore

/-! ### Dictionaries -/

variable {κ α : Type} [Ord κ] [Std.TransOrd κ]

/-- A recorded dictionary beside the maps that each write section left at its end, oldest first,
each with the generation of the section. -/
structure SectionedDictionary (κ α : Type) [Ord κ] where
  recorded : RecordedDictionary κ α
  sections : List (Generation × Std.ExtTreeMap κ α)

namespace SectionedDictionary

/-- The clock of the dictionary. -/
def clock (d : SectionedDictionary κ α) : Clock := d.recorded.clock

/-- One step of a run: the end of a section, which is recorded with the map of the writer, or any
other step. -/
inductive Step : SectionedDictionary κ α → SectionedDictionary κ α → Prop
  | closeSection {d : SectionedDictionary κ α} (hopen : d.clock.writing = true) :
    Step d
      ⟨{ d.recorded with dictionary := d.recorded.dictionary.closeSection },
        d.sections ++ [(d.clock.live, d.recorded.dictionary.items.liveView)]⟩
  | other {d : SectionedDictionary κ α} {u : RecordedDictionary κ α}
      (hstep : RecordedDictionary.Step d.recorded u)
      (hstays : d.clock.writing = true → u.clock.writing = true) :
    Step d ⟨u, d.sections⟩

/-- The states of the runs that start with a new dictionary. -/
def Reachable (options : StoreOptions) (d : SectionedDictionary κ α) : Prop :=
  ∃ new, Dictionary.create options = .ok new ∧ Relation.ReflTransGen Step ⟨⟨new, []⟩, []⟩ d

/-- The invariant of a run: the edits up to a generation, but for those of an open section, make the
map that the last section of these generations left. -/
structure Settled (d : SectionedDictionary κ α) : Prop where
  faithful : d.recorded.Faithful
  sections_le_live : ∀ e ∈ d.sections, e.1 ≤ d.clock.live
  plainAt_eq : ∀ generation, (d.clock.writing = true → generation < d.clock.live) →
    d.recorded.plainAt generation = lastLeft ∅ (sectionsUpTo d.sections generation)

variable {d u : SectionedDictionary κ α}

/-- Steps that make no edit and end no section keep the invariant. -/
theorem Settled.withDictionary (h : d.Settled) {dictionary : Dictionary κ α}
    (hfaithful : RecordedDictionary.Faithful { d.recorded with dictionary })
    (hlive : d.clock.live ≤ dictionary.clock.live)
    (hwriting : d.clock.writing = true →
      dictionary.clock.writing = true ∧ dictionary.clock.live = d.clock.live) :
    Settled ⟨{ d.recorded with dictionary }, d.sections⟩ where
  faithful := hfaithful
  sections_le_live e he := Nat.le_trans (h.sections_le_live e he) hlive
  plainAt_eq generation hlt := by
    refine h.plainAt_eq generation fun hopen ↦ ?_
    obtain ⟨hstill, hsame⟩ := hwriting hopen
    exact hsame ▸ hlt hstill

variable [Std.LawfulEqOrd κ]

/-- At the end of a section the edits make the map that the writer sees. -/
theorem Settled.closeSection (h : d.Settled) (hopen : d.clock.writing = true) :
    Settled ⟨{ d.recorded with dictionary := d.recorded.dictionary.closeSection },
      d.sections ++ [(d.clock.live, d.recorded.dictionary.items.liveView)]⟩ where
  faithful := h.faithful.step (.closeSection hopen)
  sections_le_live e he := by
    rcases List.mem_append.mp he with hold | hnew
    · exact h.sections_le_live e hold
    · rw [List.mem_singleton.mp hnew]
      exact Nat.le_refl _
  plainAt_eq generation _ := by
    rw [lastLeft_append]
    split_ifs with hle
    · have hfloor : d.clock.floor ≤ generation :=
        Nat.le_trans h.faithful.sound.floor_le_newest
          (Nat.le_trans h.faithful.sound.newest_le_live hle)
      rw [← VersionMap.viewAt_eq_liveView h.faithful.headsLE hle]
      exact (h.faithful.viewAt_eq generation hfloor).symm
    · exact h.plainAt_eq generation fun _ ↦ Nat.not_le.mp hle

theorem Settled.edit (h : d.Settled) (hopen : d.clock.writing = true) (e : MapEdit κ α) :
    Settled ⟨⟨d.recorded.dictionary.edit e, d.recorded.edits ++ [(d.clock.live, e)]⟩,
      d.sections⟩ := by
  have hclock : (d.recorded.dictionary.edit e).clock = d.clock := by cases e <;> rfl
  refine ⟨h.faithful.edit e, ?_, fun generation hlt ↦ ?_⟩
  · intro x hx
    exact Nat.le_trans (h.sections_le_live x hx) (congrArg Clock.live hclock).ge
  · have hlive : generation < d.clock.live := hclock ▸ hlt (hclock ▸ hopen)
    rw [RecordedDictionary.plainAt_append, if_neg (Nat.not_le.mpr hlive)]
    exact h.plainAt_eq generation fun _ ↦ hlive

theorem Settled.step (h : d.Settled) (hstep : Step d u) : u.Settled := by
  cases hstep with
  | closeSection hopen => exact h.closeSection hopen
  | other hstep hstays =>
    have hafter := h.faithful.step hstep
    cases hstep with
    | openSection hclosed =>
      refine h.withDictionary hafter (Clock.live_le_openSection _) fun hopen ↦ ?_
      exact absurd hopen (by simp [clock, hclosed])
    | closeSection hopen => exact absurd (hstays hopen) Bool.false_ne_true
    | edit hopen e => exact h.edit hopen e
    | snapshot =>
      have hissues := d.recorded.dictionary.issuesTo_snapshot
      exact h.withDictionary hafter hissues.live_eq.ge fun hopen ↦
        ⟨hissues.writing_eq.trans hopen, hissues.live_eq⟩
    | _ => exact h.withDictionary hafter (Nat.le_refl _) fun hopen ↦ ⟨hopen, rfl⟩

theorem Reachable.settled {options : StoreOptions} (hd : Reachable options d) : d.Settled := by
  obtain ⟨new, hnew, hsteps⟩ := hd
  induction hsteps with
  | refl =>
    exact ⟨RecordedDictionary.faithful_new hnew, fun e he ↦ absurd he List.not_mem_nil,
      fun _ _ ↦ rfl⟩
  | tail _ hstep ih => exact ih.step hstep

theorem Reachable.showsEnded {options : StoreOptions} (hd : Reachable options d) :
    ShowsEnded d.clock ∅ d.sections
      (d.recorded.dictionary.snapshot.1.items.viewAt
        d.recorded.dictionary.snapshot.2.generation) := by
  have h := hd.settled
  refine showsEnded_of_eq h.faithful.sound h.sections_le_live ?_
  have hafter : RecordedDictionary.Faithful
      { d.recorded with dictionary := d.recorded.dictionary.snapshot.1 } :=
    h.faithful.step .snapshot
  have hgeneration : d.recorded.dictionary.snapshot.2.generation = d.clock.complete :=
    Clock.generation_issue d.clock
  have hheld : d.recorded.dictionary.snapshot.2 ∈ d.recorded.dictionary.snapshot.1.clock.held :=
    d.recorded.dictionary.issuesTo_snapshot.issue_mem_held
  rw [hafter.viewAt_eq _ (hafter.sound.floor_le_of_mem_held hheld), hgeneration]
  exact h.plainAt_eq d.clock.complete fun hopen ↦
    (h.faithful.sound.le_complete_iff hopen).mp (Nat.le_refl _)

end SectionedDictionary

/-! ### Both kinds of store -/

variable (κ α) in
/-- A new snapshot of a store or of a dictionary, in any state of a run, shows what the sections
that have ended left and nothing of an open one. Only while a section is open that works at the
generation of an ended one, it shows what the ended sections of earlier generations left. -/
theorem snapshot_showsEnded [Std.LawfulEqOrd κ] :
    (∀ kind options r, RecordedStore.Reachable kind options r →
      ShowsEnded r.clock ContentView.empty r.sections
        (r.store.snapshot.1.viewAt r.store.snapshot.2.generation)) ∧
    ∀ options (d : SectionedDictionary κ α), SectionedDictionary.Reachable options d →
      ShowsEnded d.clock ∅ d.sections
        (d.recorded.dictionary.snapshot.1.items.viewAt
          d.recorded.dictionary.snapshot.2.generation) :=
  ⟨fun _ _ _ hr ↦ hr.showsEnded, fun _ _ hd ↦ hd.showsEnded⟩

namespace RecordedStore

/-- The page stored in a first section, and a second section open at the same generation. -/
def pageHidden : RecordedStore :=
  let s : ContentStore := ⟨.content, Engine.new StoreOptions.default, .empty, .empty⟩
  let s := ((s.openSection.perform (.setAllTypes [pageType])).1.perform (.set page)).1
  ⟨s.closeSection.openSection, [(1, s.live.view)]⟩

theorem reachable_pageHidden : Reachable .content StoreOptions.default pageHidden :=
  ⟨_, rfl, .tail (.tail (.tail (.tail (.tail .refl (.openSection rfl))
    (.perform rfl (.setAllTypes [pageType]))) (.perform rfl (.set page))) (.closeSection rfl))
    (.openSection rfl)⟩

/-- The section that stored the page has ended, and a new snapshot does not show the page: snapshots
do not always show what the last ended section left. -/
theorem snapshot_ne_lastLeft_pageHidden :
    Reachable .content StoreOptions.default pageHidden ∧
      (lastLeft ContentView.empty pageHidden.sections).node? ⟨1⟩ =
        some (.ofKit page pageType []) ∧
      (pageHidden.store.snapshot.1.viewAt pageHidden.store.snapshot.2.generation).node? ⟨1⟩ =
        none ∧
      ¬∀ r, Reachable .content StoreOptions.default r →
        r.store.snapshot.1.viewAt r.store.snapshot.2.generation =
          lastLeft ContentView.empty r.sections := by
  have hleft : (lastLeft ContentView.empty pageHidden.sections).node? ⟨1⟩ =
      some (.ofKit page pageType []) := by decide +kernel
  have hshown :
      (pageHidden.store.snapshot.1.viewAt pageHidden.store.snapshot.2.generation).node? ⟨1⟩ =
        none := by decide +kernel
  refine ⟨reachable_pageHidden, hleft, hshown, fun hall ↦ ?_⟩
  rw [hall pageHidden reachable_pageHidden, hleft] at hshown
  contradiction

end RecordedStore

/-- One key, set in a first section and pinned, and cleared in a second section, which is open. -/
def SectionedDictionary.keyClearing : SectionedDictionary Nat Nat :=
  let d : Dictionary Nat Nat := ⟨Engine.new StoreOptions.default, VersionMap.empty⟩
  let d := d.openSection.edit (.set 1 10)
  ⟨⟨d.closeSection.snapshot.1.openSection.edit (.clear 1), [(1, .set 1 10), (2, .clear 1)]⟩,
    [(1, d.items.liveView)]⟩

/-- The second section of the store shares its generation with the first, which a new snapshot then
does not show; that of the dictionary does not, and a new snapshot shows the key of the first. -/
theorem snapshot_showsEnded_openSections :
    RecordedStore.pageHidden.store.snapshot.1.viewAt
        RecordedStore.pageHidden.store.snapshot.2.generation = ContentView.empty ∧
      SectionedDictionary.keyClearing.recorded.dictionary.live? 1 = none ∧
      (SectionedDictionary.keyClearing.recorded.dictionary.snapshot.1.items.viewAt
        SectionedDictionary.keyClearing.recorded.dictionary.snapshot.2.generation)[1]? =
          some 10 := by
  have hr : SectionedDictionary.Reachable StoreOptions.default SectionedDictionary.keyClearing :=
    ⟨_, rfl, .tail (.tail (.tail (.tail (.tail (.tail .refl
      (.other (.openSection rfl) nofun)) (.other (.edit rfl (.set 1 10)) fun _ ↦ rfl))
      (.closeSection rfl)) (.other .snapshot nofun)) (.other (.openSection rfl) nofun))
      (.other (.edit rfl (.clear 1)) fun _ ↦ rfl)⟩
  have hshares : RecordedStore.pageHidden.clock.SharesGeneration
      RecordedStore.pageHidden.sections := ⟨rfl, _, List.mem_singleton_self _, rfl⟩
  have hown : ¬SectionedDictionary.keyClearing.clock.SharesGeneration
      SectionedDictionary.keyClearing.sections := by
    rintro ⟨-, e, he, heq⟩
    rw [List.mem_singleton.mp he] at heq
    contradiction
  refine ⟨?_, by decide +kernel, ?_⟩
  · exact ((snapshot_showsEnded Nat Nat).1 _ _ _ RecordedStore.reachable_pageHidden).eq_of_shares
      hshares
  · rw [((snapshot_showsEnded Nat Nat).2 _ _ hr).eq_of_not_shares hown]
    decide +kernel

end VersionedContent
