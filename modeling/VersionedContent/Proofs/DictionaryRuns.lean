import VersionedContent.Dictionary
import VersionedContent.Proofs.EngineRuns
import VersionedContent.Proofs.VersionReads

/-!
# Runs of a dictionary

A dictionary refines a plain map with history. `RecordedDictionary` keeps, beside a dictionary, the
edits made to it so far with the generations of their sections; `plainAt` replays those up to a
generation on a plain map. Whatever sections, snapshots, clones, releases and collection passes a
run is made of, a read at a generation from the floor on finds what the replay has, and one below
the floor finds that or nothing. So a snapshot shows the replay at its generation until its last
handle is released (`RecordedDictionary.Reachable.reads_eq_plainAt`).
-/

set_option autoImplicit false

namespace VersionedContent

/-! ### Edits and their replay -/

/-- One edit of a map. -/
inductive MapEdit (κ α : Type)
  | set (key : κ) (value : α)
  | clear (key : κ)
  | clearAll

variable {κ α : Type} [Ord κ] [Std.TransOrd κ]

/-- A plain map after an edit. -/
def MapEdit.apply (m : Std.ExtTreeMap κ α) : MapEdit κ α → Std.ExtTreeMap κ α
  | .set key value => m.insert key value
  | .clear key => m.erase key
  | .clearAll => ∅

namespace Dictionary

/-- A dictionary after an edit in its open section. -/
def edit (d : Dictionary κ α) : MapEdit κ α → Dictionary κ α
  | .set key value => d.set key value
  | .clear key => d.clear key
  | .clearAll => d.clearAll

omit [Std.TransOrd κ] in
theorem eq_of_create {options : StoreOptions} {d : Dictionary κ α}
    (h : create options = .ok d) : d = ⟨Engine.new options, VersionMap.empty⟩ := by
  unfold create StoreOptions.validate at h
  split_ifs at h <;> cases h
  rfl

/-- Every read of a dictionary at a generation gives what a plain map holds. -/
structure Shows (d : Dictionary κ α) (generation : Generation) (m : Std.ExtTreeMap κ α) : Prop where
  get? : ∀ key, d.get? generation key = m[key]?
  entries : d.entries generation = m.toList
  keys : d.keys generation = m.keys
  values : d.values generation = m.toList.map Prod.snd
  isEmptyAt : d.isEmptyAt generation = m.isEmpty
  keys_nodup : (d.keys generation).Nodup

theorem shows_of_viewAt_eq {d : Dictionary κ α} {generation : Generation}
    {m : Std.ExtTreeMap κ α} (h : d.items.viewAt generation = m) : d.Shows generation m where
  get? key := by rw [← h, VersionMap.getElem?_viewAt, Dictionary.get?]
  entries := by rw [Dictionary.entries, h]
  keys := by rw [Dictionary.keys, Dictionary.entries, h, Std.ExtTreeMap.map_fst_toList_eq_keys]
  values := by rw [Dictionary.values, Dictionary.entries, h]
  isEmptyAt := by rw [Dictionary.isEmptyAt, h]
  keys_nodup := by
    rw [Dictionary.keys, Dictionary.entries, Std.ExtTreeMap.map_fst_toList_eq_keys]
    exact Std.ExtTreeMap.nodup_keys

/-- A snapshot is an issued pin, with or without a collection pass after it. -/
theorem snapshot_eq (d : Dictionary κ α) :
    d.snapshot.1 = { d with engine := d.engine.issue.1 } ∨
      d.snapshot.1 = ({ d with engine := d.engine.issue.1 } : Dictionary κ α).collect.1 := by
  unfold snapshot
  dsimp only
  split_ifs
  · exact Or.inr rfl
  · exact Or.inl rfl

theorem engine_snapshot (d : Dictionary κ α) :
    d.snapshot.1.engine = d.engine.snapshotted d.items.tally := by
  unfold snapshot Engine.snapshotted
  dsimp only
  split_ifs <;> rfl

theorem issuesTo_snapshot (d : Dictionary κ α) : d.clock.IssuesTo d.snapshot.1.clock := by
  have hissues := d.engine.issuesTo_snapshotted d.items.tally
  rwa [← engine_snapshot] at hissues

variable [Std.LawfulEqOrd κ]

/-- An edit acts on the map that the live generation and later ones see, and on no other. -/
theorem viewAt_edit {d : Dictionary κ α} (h : d.items.HeadsLE d.clock.live) (e : MapEdit κ α)
    (generation : Generation) :
    (d.edit e).items.viewAt generation =
      if d.clock.live ≤ generation then e.apply (d.items.viewAt generation)
      else d.items.viewAt generation := by
  cases e with
  | set key value => exact VersionMap.viewAt_set h value
  | clear key => exact VersionMap.viewAt_clear h
  | clearAll => exact VersionMap.viewAt_clearAll h

theorem headsLE_edit {d : Dictionary κ α} (h : d.items.HeadsLE d.clock.live) (e : MapEdit κ α) :
    (d.edit e).items.HeadsLE d.clock.live := by
  cases e with
  | set key value => exact h.set value
  | clear key => exact h.clear
  | clearAll => exact h.clearAll

end Dictionary

/-- A dictionary beside the edits made to it so far, oldest first, each with the generation of the
section it was made in. -/
structure RecordedDictionary (κ α : Type) [Ord κ] where
  dictionary : Dictionary κ α
  edits : List (Generation × MapEdit κ α)

namespace RecordedDictionary

/-- The plain map made by the edits of the generations up to a given one. -/
def plainAt (r : RecordedDictionary κ α) (generation : Generation) : Std.ExtTreeMap κ α :=
  (r.edits.filter fun e ↦ decide (e.1 ≤ generation)).foldl (fun m e ↦ e.2.apply m) ∅

/-- The clock of the dictionary. -/
def clock (r : RecordedDictionary κ α) : Clock := r.dictionary.clock

/-- One step of a run. Edits are made in an open section, handles are cloned and released by their
holders; a snapshot, which may start a pass of its own, and a collection pass need neither. -/
inductive Step : RecordedDictionary κ α → RecordedDictionary κ α → Prop
  | openSection {r : RecordedDictionary κ α} (hclosed : r.clock.writing = false) :
    Step r { r with dictionary := r.dictionary.openSection }
  | closeSection {r : RecordedDictionary κ α} (hopen : r.clock.writing = true) :
    Step r { r with dictionary := r.dictionary.closeSection }
  | edit {r : RecordedDictionary κ α} (hopen : r.clock.writing = true) (e : MapEdit κ α) :
    Step r ⟨r.dictionary.edit e, r.edits ++ [(r.clock.live, e)]⟩
  | snapshot {r : RecordedDictionary κ α} : Step r { r with dictionary := r.dictionary.snapshot.1 }
  | clone {r : RecordedDictionary κ α} {pin : Pin} (hheld : pin ∈ r.clock.held) :
    Step r { r with dictionary := r.dictionary.clone pin }
  | release {r : RecordedDictionary κ α} {pin : Pin} (hheld : pin ∈ r.clock.held) :
    Step r { r with dictionary := r.dictionary.release pin }
  | collect {r : RecordedDictionary κ α} : Step r { r with dictionary := r.dictionary.collect.1 }

/-- What any number of steps lead to. -/
abbrev Steps : RecordedDictionary κ α → RecordedDictionary κ α → Prop := Relation.ReflTransGen Step

/-- The states of the runs that start with a new dictionary. -/
def Reachable (options : StoreOptions) (r : RecordedDictionary κ α) : Prop :=
  ∃ d, Dictionary.create options = .ok d ∧ Steps ⟨d, []⟩ r

/-- The invariant of a run: every generation from the floor on sees the replay of the edits, and
every other one sees no value that differs from it. -/
structure Faithful (r : RecordedDictionary κ α) : Prop where
  sound : r.clock.Sound
  headsLE : r.dictionary.items.HeadsLE r.clock.live
  viewAt_eq : ∀ generation, r.clock.floor ≤ generation →
    r.dictionary.items.viewAt generation = r.plainAt generation
  get?_eq_or : ∀ generation key,
    r.dictionary.get? generation key = (r.plainAt generation)[key]? ∨
      r.dictionary.get? generation key = none

theorem plainAt_append (r : RecordedDictionary κ α) (d : Dictionary κ α) (live : Generation)
    (e : MapEdit κ α) (generation : Generation) :
    plainAt ⟨d, r.edits ++ [(live, e)]⟩ generation =
      if live ≤ generation then e.apply (r.plainAt generation) else r.plainAt generation := by
  unfold plainAt
  by_cases hle : live ≤ generation <;> simp [List.filter_append, hle]

variable {r : RecordedDictionary κ α}

/-- Steps of the clock that leave the floor in place keep the invariant. -/
theorem Faithful.withEngine (h : r.Faithful) {engine : Engine} (hsound : engine.clock.Sound)
    (hfloor : engine.clock.floor = r.clock.floor) (hlive : r.clock.live ≤ engine.clock.live) :
    Faithful { r with dictionary := { r.dictionary with engine } } where
  sound := hsound
  headsLE := h.headsLE.mono hlive
  viewAt_eq generation hle := h.viewAt_eq generation (hfloor ▸ hle)
  get?_eq_or := h.get?_eq_or

theorem Faithful.issue (h : r.Faithful) :
    Faithful { r with dictionary := { r.dictionary with engine := r.dictionary.engine.issue.1 } } :=
  h.withEngine h.sound.issue (Clock.floor_issue r.clock) (Clock.live_issue r.clock).ge

theorem Step.engine {u : RecordedDictionary κ α} (hstep : Step r u) :
    r.dictionary.engine.Step u.dictionary.engine := by
  cases hstep with
  | openSection _ => exact ⟨rfl, .openSection⟩
  | closeSection _ => exact ⟨rfl, .closeSection⟩
  | edit _ e => cases e <;> exact ⟨rfl, .stay⟩
  | snapshot => exact r.dictionary.engine_snapshot ▸ r.dictionary.engine.step_snapshotted _
  | clone hheld => exact ⟨rfl, .clone hheld⟩
  | release _ => exact ⟨rfl, .release⟩
  | collect => exact ⟨rfl, .advanceFloor⟩

theorem Reachable.engine {options : StoreOptions} (hr : Reachable options r) :
    Engine.Reachable options r.dictionary.engine := by
  obtain ⟨d, hd, hsteps⟩ := hr
  obtain rfl := Dictionary.eq_of_create hd
  exact hsteps.lift (fun r ↦ r.dictionary.engine) fun _ _ ↦ Step.engine

/-- No step edits a generation that a pin shows. -/
theorem Faithful.plainAt_step (h : r.Faithful) {u : RecordedDictionary κ α} (hstep : Step r u)
    {generation : Generation} (hle : generation ≤ r.clock.newest) :
    u.plainAt generation = r.plainAt generation := by
  cases hstep with
  | edit hopen e =>
    have hlive := h.sound.live_eq_of_writing hopen
    rw [plainAt_append, if_neg (by lia)]
  | _ => rfl

variable [Std.LawfulEqOrd κ]

theorem faithful_new {options : StoreOptions} {d : Dictionary κ α}
    (h : Dictionary.create options = .ok d) : Faithful ⟨d, []⟩ := by
  obtain rfl := Dictionary.eq_of_create h
  refine ⟨Clock.sound_new, VersionMap.headsLE_empty, ?_, ?_⟩
  · intro generation _
    exact VersionMap.viewAt_empty
  · intro generation key
    refine Or.inr ?_
    rw [Dictionary.get?, ← VersionMap.getElem?_viewAt, VersionMap.viewAt_empty]
    exact Std.ExtTreeMap.getElem?_empty

/-- An edit is made in the plain maps of the same generations as in the dictionary. -/
theorem Faithful.edit (h : r.Faithful) (e : MapEdit κ α) :
    Faithful ⟨r.dictionary.edit e, r.edits ++ [(r.clock.live, e)]⟩ := by
  have hclock : (r.dictionary.edit e).clock = r.clock := by cases e <;> rfl
  have hfloor : r.clock.floor ≤ r.clock.live :=
    Nat.le_trans h.sound.floor_le_newest h.sound.newest_le_live
  have hview : ∀ generation, (r.dictionary.edit e).items.viewAt generation =
      if r.clock.live ≤ generation then e.apply (r.dictionary.items.viewAt generation)
      else r.dictionary.items.viewAt generation :=
    Dictionary.viewAt_edit h.headsLE e
  refine ⟨?_, ?_, ?_, ?_⟩
  · change (r.dictionary.edit e).clock.Sound
    rw [hclock]
    exact h.sound
  · change (r.dictionary.edit e).items.HeadsLE (r.dictionary.edit e).clock.live
    rw [hclock]
    exact Dictionary.headsLE_edit h.headsLE e
  · intro generation hle
    change (r.dictionary.edit e).clock.floor ≤ generation at hle
    rw [hclock] at hle
    rw [plainAt_append, hview, h.viewAt_eq generation hle]
  · intro generation key
    rw [plainAt_append, Dictionary.get?, ← VersionMap.getElem?_viewAt, hview]
    split_ifs with hle
    · rw [h.viewAt_eq generation (Nat.le_trans hfloor hle)]
      exact Or.inl rfl
    · rw [VersionMap.getElem?_viewAt]
      exact h.get?_eq_or generation key

/-- A collection pass hides values only from generations below the floor it leaves. -/
theorem Faithful.collect (h : r.Faithful) :
    Faithful { r with dictionary := r.dictionary.collect.1 } := by
  have hfloor := h.sound.floor_le_advanceFloor
  refine ⟨h.sound.advanceFloor, h.headsLE.prune, ?_, ?_⟩
  · intro generation hle
    exact (VersionMap.viewAt_prune hle).trans (h.viewAt_eq generation (Nat.le_trans hfloor hle))
  · intro generation key
    rcases VersionMap.get?_prune_or r.dictionary.items r.clock.advanceFloor.1.floor generation key
      with hsame | hnone
    · exact (h.get?_eq_or generation key).imp hsame.trans hsame.trans
    · exact Or.inr hnone

theorem Faithful.step (h : r.Faithful) {u : RecordedDictionary κ α} (hstep : Step r u) :
    u.Faithful := by
  cases hstep with
  | openSection _ =>
    exact h.withEngine h.sound.openSection (Clock.floor_openSection _) (Clock.live_le_openSection _)
  | closeSection _ => exact h.withEngine h.sound.closeSection rfl (Nat.le_refl _)
  | edit _ e => exact h.edit e
  | snapshot =>
    rcases Dictionary.snapshot_eq r.dictionary with hissued | hcollected
    · rw [hissued]
      exact h.issue
    · rw [hcollected]
      exact h.issue.collect
  | clone hheld => exact h.withEngine (h.sound.clone hheld) rfl (Nat.le_refl _)
  | release _ => exact h.withEngine (h.sound.release _) rfl (Nat.le_refl _)
  | collect => exact h.collect

theorem Faithful.steps (h : r.Faithful) {u : RecordedDictionary κ α} (hsteps : Steps r u) :
    u.Faithful := by
  induction hsteps with
  | refl => exact h
  | tail _ hstep ih => exact ih.step hstep

theorem Faithful.plainAt_steps (h : r.Faithful) {u : RecordedDictionary κ α} (hsteps : Steps r u)
    {generation : Generation} (hle : generation ≤ r.clock.newest) :
    u.plainAt generation = r.plainAt generation ∧ generation ≤ u.clock.newest := by
  induction hsteps with
  | refl => exact ⟨rfl, hle⟩
  | tail hbefore hstep ih =>
    have hmiddle := h.steps hbefore
    exact ⟨(hmiddle.plainAt_step hstep ih.2).trans ih.1,
      Nat.le_trans ih.2 (hmiddle.sound.newest_le_move hstep.engine.move)⟩

/-! ### Reads along a run -/

theorem Reachable.faithful {options : StoreOptions} (hr : Reachable options r) : r.Faithful := by
  obtain ⟨d, hd, hsteps⟩ := hr
  exact (faithful_new hd).steps hsteps

/-- A dictionary refines the plain map of its edits. In every state of a run a read at a
generation from the floor on finds what the edits up to that generation left, and a read below the
floor finds that or nothing. A held pin shows all of the plain map at its generation, and goes on to
show the same map in every later state in which it is still held. -/
theorem Reachable.reads_eq_plainAt {options : StoreOptions} (hr : Reachable options r) :
    (∀ generation key,
      (r.clock.floor ≤ generation →
        r.dictionary.get? generation key = (r.plainAt generation)[key]?) ∧
      (r.dictionary.get? generation key = (r.plainAt generation)[key]? ∨
        r.dictionary.get? generation key = none)) ∧
    ∀ pin ∈ r.clock.held, r.dictionary.Shows pin.generation (r.plainAt pin.generation) ∧
      ∀ u, Steps r u → pin ∈ u.clock.held →
        u.plainAt pin.generation = r.plainAt pin.generation ∧
          u.dictionary.Shows pin.generation (r.plainAt pin.generation) := by
  have h := hr.faithful
  have hshows : ∀ {u : RecordedDictionary κ α}, u.Faithful → ∀ pin ∈ u.clock.held,
      u.dictionary.Shows pin.generation (u.plainAt pin.generation) := by
    intro u hu pin hpin
    exact Dictionary.shows_of_viewAt_eq
      (hu.viewAt_eq pin.generation (hu.sound.floor_le_of_mem_held hpin))
  refine ⟨fun generation key ↦ ⟨fun hle ↦ ?_, h.get?_eq_or generation key⟩, ?_⟩
  · rw [← h.viewAt_eq generation hle, VersionMap.getElem?_viewAt]
    rfl
  · intro pin hpin
    refine ⟨hshows h pin hpin, fun u hsteps hstill ↦ ?_⟩
    have hnewest := (h.sound.bounds_of_mem_queue (h.sound.queued_of_held pin hpin)).2
    have hsame := (h.plainAt_steps hsteps hnewest).1
    refine ⟨hsame, ?_⟩
    rw [← hsame]
    exact hshows (h.steps hsteps) pin hstill

/-- One key, set in a first section and then pinned. -/
def keyPinned : RecordedDictionary Nat Nat :=
  let d : Dictionary Nat Nat := ⟨Engine.new StoreOptions.default, VersionMap.empty⟩
  ⟨(d.openSection.edit (.set 1 10)).closeSection.snapshot.1, [(1, .set 1 10)]⟩

/-- The pinned key cleared in a second section, with a pass behind a second pin. -/
def keyCleared : RecordedDictionary Nat Nat :=
  ⟨(keyPinned.dictionary.openSection.edit (.clear 1)).closeSection.snapshot.1.collect.1,
    [(1, .set 1 10), (2, .clear 1)]⟩

/-- The first pin still shows the key, which the writer no longer sees. -/
theorem Reachable.reads_eq_plainAt_keyCleared :
    Reachable StoreOptions.default keyPinned ∧ Steps keyPinned keyCleared ∧
      ⟨1, 0⟩ ∈ keyPinned.clock.held ∧ ⟨1, 0⟩ ∈ keyCleared.clock.held ∧
      keyCleared.dictionary.live? 1 = none ∧ (keyPinned.plainAt 1)[1]? = some 10 ∧
      keyCleared.dictionary.Shows 1 (keyPinned.plainAt 1) := by
  have hr : Reachable StoreOptions.default keyPinned :=
    ⟨_, rfl, .tail (.tail (.tail (.tail .refl (.openSection rfl)) (.edit rfl (.set 1 10)))
      (.closeSection rfl)) .snapshot⟩
  have hsteps : Steps keyPinned keyCleared :=
    .tail (.tail (.tail (.tail (.tail .refl (.openSection rfl)) (.edit rfl (.clear 1)))
      (.closeSection rfl)) .snapshot) .collect
  have hpin : (⟨1, 0⟩ : Pin) ∈ keyPinned.clock.held := by decide
  have hstill : (⟨1, 0⟩ : Pin) ∈ keyCleared.clock.held := by decide
  exact ⟨hr, hsteps, hpin, hstill, by decide +kernel, by decide,
    ((hr.reads_eq_plainAt.2 _ hpin).2 _ hsteps hstill).2⟩

end RecordedDictionary

end VersionedContent
