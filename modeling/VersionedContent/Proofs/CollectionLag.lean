import VersionedContent.Proofs.FloorAdvance
import VersionedContent.Proofs.FullRelease

/-!
# How far the floor falls behind

A snapshot that makes a new pin runs a collection pass when the live generation is further ahead of
the floor than the options allow. After it the lag is within the options again, or the floor is as
high as the held pins let it be. So when every snapshot is given up before the next one is taken,
the floor stays within reach of the live generation in every state of a run, however long, and also
when the options allow no lag at all (`collection_keepsUp`).
-/

set_option autoImplicit false

namespace VersionedContent

/-! ### The clock -/

namespace Clock

variable {c : Clock} {lag : Nat}

/-- The clock after a snapshot of a store that collects by itself at a lag. -/
def snapped (c : Clock) (lag : Nat) : Clock :=
  if c.reusable?.isNone && c.issue.1.collectionDue lag then c.issue.1.advanceFloor.1
  else c.issue.1

/-- The floor is at the oldest held pin or right below it, and a pass would release no pin. -/
structure FloorAtOldest (c : Clock) : Prop where
  oldest_held : ∃ oldest ∈ c.held, (∀ p ∈ c.held, oldest.generation ≤ p.generation) ∧
    (c.floor = oldest.generation ∨ c.floor + 1 = oldest.generation)
  advance_eq : c.advanceFloor = (c, ⟨c.floor, c.floor, 0⟩)

/-- The floor is near the live generation, or cannot be nearer. -/
def FloorNear (c : Clock) (lag : Nat) : Prop := c.live - c.floor ≤ lag ∨ c.FloorAtOldest

theorem issuesTo_snapped (c : Clock) (lag : Nat) : c.IssuesTo (c.snapped lag) := by
  unfold snapped
  split_ifs
  · exact Or.inr rfl
  · exact Or.inl rfl

theorem Sound.floorAtOldest_advanceFloor (h : c.Sound) (hheld : c.held ≠ []) :
    c.advanceFloor.1.FloorAtOldest :=
  ⟨h.oldest_held_advanceFloor hheld, advanceFloor_advanceFloor c⟩

theorem Sound.floorNear_snapped (h : c.Sound) (hnew : c.reusable? = none) :
    (c.snapped lag).FloorNear lag := by
  unfold snapped
  rw [hnew, Option.isNone_none, Bool.true_and]
  split_ifs with hdue
  · exact Or.inr (h.issue.floorAtOldest_advanceFloor (List.ne_nil_of_mem (issue_mem_held c)))
  · exact Or.inl (by simpa [collectionDue] using hdue)

/-- The live generation is at most so far ahead of the floor, or one generation further when a
section has opened it since the last pin. -/
structure KeepsUp (c : Clock) (lag : Nat) : Prop where
  sound : c.Sound
  live_le : c.live ≤ c.floor + max lag 1 + c.dirty.toNat

namespace KeepsUp

theorem lag_le (h : c.KeepsUp lag) : c.live - c.floor ≤ max lag 1 + 1 := by
  have hlive := h.live_le
  have hdirty := c.dirty.toNat_le
  lia

theorem openSection (h : c.KeepsUp lag) : c.openSection.KeepsUp lag := by
  refine ⟨h.sound.openSection, ?_⟩
  have hlive := h.live_le
  unfold Clock.openSection
  split_ifs with hdirty
  · exact hlive
  · rw [Bool.not_eq_true] at hdirty
    rw [hdirty] at hlive
    exact Nat.succ_le_succ hlive

theorem advanceFloor (h : c.KeepsUp lag) : c.advanceFloor.1.KeepsUp lag := by
  refine ⟨h.sound.advanceFloor, ?_⟩
  have hlive := h.live_le
  have hfloor := h.sound.floor_le_advanceFloor
  change c.live ≤ c.advanceFloor.1.floor + max lag 1 + c.dirty.toNat
  lia

/-- A move that hands out no handle lets the live generation get one ahead at most. -/
theorem move (h : c.KeepsUp lag) {after : Clock} (hmove : c.Move after)
    (hheld : after.held.length ≤ c.held.length) : after.KeepsUp lag := by
  cases hmove with
  | stay => exact h
  | openSection => exact h.openSection
  | closeSection => exact ⟨h.sound.closeSection, h.live_le⟩
  | issue hissues =>
    rw [hissues.held_eq] at hheld
    exact absurd hheld (Nat.not_succ_le_self _)
  | clone _ => exact absurd hheld (Nat.not_succ_le_self _)
  | release => exact ⟨h.sound.release _, h.live_le⟩
  | advanceFloor => exact h.advanceFloor

/-- A snapshot taken while no section is open and no handle is left lets the floor catch up. -/
theorem snapped (h : c.Sound) (hclosed : c.writing = false) (hnone : c.held = []) :
    (c.snapped lag).KeepsUp lag := by
  have hissues := issuesTo_snapped c lag
  have hnew : c.reusable? = none := by
    rw [Option.eq_none_iff_forall_ne_some]
    intro p hp
    simpa [hnone] using (reusable?_eq_some_iff.mp hp).2.1
  have hlive : (c.snapped lag).live ≤ (c.snapped lag).floor + max lag 1 := by
    have hfloor : (c.snapped lag).FloorNear lag := h.floorNear_snapped hnew
    rcases hfloor with hnear | ⟨⟨oldest, hmem, -, hfloor⟩, -⟩
    · lia
    · -- the only held pin is the new one, which is of the live generation
      have hissued : oldest = c.issue.2 := by
        rw [hissues.held_eq, hnone] at hmem
        exact List.mem_singleton.mp hmem
      have hgeneration : oldest.generation = (c.snapped lag).live := by
        rw [hissued, generation_issue, complete_of_closed hclosed, hissues.live_eq]
      lia
  exact ⟨hissues.sound h, Nat.le_add_right_of_le hlive⟩

end KeepsUp

end Clock

/-! ### The engine -/

namespace Engine

variable {e u : Engine} {options : StoreOptions}

theorem clock_snapshotted (tally : Generation → PruneTally)
    (hauto : e.options.collect.auto = true) :
    (e.snapshotted tally).clock = e.clock.snapped e.options.collect.minGenDelta := by
  simp only [snapshotted, issue, hauto, Bool.and_true, Option.not_isSome, apply_ite clock]
  rfl

/-- In every state of a run, a snapshot that makes a new pin leaves the floor near the live
generation, or as near as it can be. -/
theorem Reachable.floorNear_snapshotted (he : Reachable options e)
    (hauto : options.collect.auto = true) (hnew : e.clock.reusable? = none)
    (tally : Generation → PruneTally) :
    (e.snapshotted tally).clock.FloorNear options.collect.minGenDelta := by
  obtain rfl := he.options_eq
  rw [clock_snapshotted tally hauto]
  exact he.sound.floorNear_snapped hnew

/-- One step of a run in which every snapshot is given up before the next one is taken, outside of
the write sections. -/
inductive LoneStep : Engine → Engine → Prop
  | snapshot {e : Engine} (tally : Generation → PruneTally) (hclosed : e.clock.writing = false)
    (hnone : e.clock.held = []) : LoneStep e (e.snapshotted tally)
  | other {e u : Engine} (hstep : Step e u)
    (hheld : u.clock.held.length ≤ e.clock.held.length) : LoneStep e u

/-- The engines of such runs that start with a new store. -/
def LoneReachable (options : StoreOptions) (e : Engine) : Prop :=
  Relation.ReflTransGen LoneStep (new options) e

theorem LoneStep.step (hstep : LoneStep e u) : Step e u := by
  cases hstep with
  | snapshot tally _ _ => exact e.step_snapshotted tally
  | other hstep _ => exact hstep

theorem LoneStep.keepsUp (hstep : LoneStep e u) (hauto : e.options.collect.auto = true)
    (h : e.clock.KeepsUp e.options.collect.minGenDelta) :
    u.clock.KeepsUp u.options.collect.minGenDelta := by
  rw [hstep.step.options_eq]
  cases hstep with
  | snapshot tally hclosed hnone =>
    rw [clock_snapshotted tally hauto]
    exact .snapped h.sound hclosed hnone
  | other hstep hheld => exact h.move hstep.move hheld

theorem LoneReachable.keepsUp (he : LoneReachable options e)
    (hauto : options.collect.auto = true) : e.clock.KeepsUp options.collect.minGenDelta := by
  have hkeeps : e.options = options ∧ e.clock.KeepsUp e.options.collect.minGenDelta := by
    induction he with
    | refl => exact ⟨rfl, Clock.sound_new, Nat.zero_le _⟩
    | tail _ hstep ih =>
      obtain ⟨rfl, hbefore⟩ := ih
      exact ⟨hstep.step.options_eq, hstep.keepsUp hauto hbefore⟩
  exact hkeeps.1 ▸ hkeeps.2

end Engine

/-! ### Dictionaries -/

namespace RecordedDictionary

variable {κ α : Type} [Ord κ] [Std.TransOrd κ]
variable {r u : RecordedDictionary κ α} {options : StoreOptions}

/-- One step of a run in which every snapshot is given up before the next one is taken, outside of
the write sections. The other steps hand out no handle. -/
inductive LoneStep : RecordedDictionary κ α → RecordedDictionary κ α → Prop
  | snapshot {r : RecordedDictionary κ α} (hclosed : r.clock.writing = false)
    (hnone : r.clock.held = []) : LoneStep r { r with dictionary := r.dictionary.snapshot.1 }
  | other {r u : RecordedDictionary κ α} (hstep : Step r u)
    (hheld : u.clock.held.length ≤ r.clock.held.length) : LoneStep r u

/-- The states of such runs that start with a new dictionary. -/
def LoneReachable (options : StoreOptions) (r : RecordedDictionary κ α) : Prop :=
  ∃ d, Dictionary.create options = .ok d ∧ Relation.ReflTransGen LoneStep ⟨d, []⟩ r

theorem LoneStep.step (hstep : LoneStep r u) : Step r u := by
  cases hstep with
  | snapshot _ _ => exact .snapshot
  | other hstep _ => exact hstep

theorem LoneStep.engine (hstep : LoneStep r u) :
    r.dictionary.engine.LoneStep u.dictionary.engine := by
  cases hstep with
  | snapshot hclosed hnone =>
    exact r.dictionary.engine_snapshot ▸ .snapshot r.dictionary.items.tally hclosed hnone
  | other hstep hheld => exact .other hstep.engine hheld

theorem LoneReachable.reachable (hr : LoneReachable options r) : Reachable options r := by
  obtain ⟨d, hd, hsteps⟩ := hr
  exact ⟨d, hd, Relation.ReflTransGen.mono (fun _ _ ↦ LoneStep.step) _ _ hsteps⟩

theorem LoneReachable.engine (hr : LoneReachable options r) :
    Engine.LoneReachable options r.dictionary.engine := by
  obtain ⟨d, hd, hsteps⟩ := hr
  obtain rfl := Dictionary.eq_of_create hd
  exact hsteps.lift (fun r ↦ r.dictionary.engine) fun _ _ ↦ LoneStep.engine

end RecordedDictionary

/-! ### Stores -/

namespace RecordedStore

variable {r u : RecordedStore} {kind : ItemKind} {options : StoreOptions}

/-- One step of a run in which every snapshot is given up before the next one is taken, outside of
the write sections. The other steps hand out no handle. -/
inductive LoneStep : RecordedStore → RecordedStore → Prop
  | snapshot {r : RecordedStore} (hclosed : r.clock.writing = false)
    (hnone : r.clock.held = []) : LoneStep r { r with store := r.store.snapshot.1 }
  | other {r u : RecordedStore} (hstep : Step r u)
    (hheld : u.clock.held.length ≤ r.clock.held.length) : LoneStep r u

/-- The states of such runs that start with a new store. -/
def LoneReachable (kind : ItemKind) (options : StoreOptions) (r : RecordedStore) : Prop :=
  ∃ s, ContentStore.create kind options = .ok s ∧ Relation.ReflTransGen LoneStep ⟨s, []⟩ r

theorem LoneStep.step (hstep : LoneStep r u) : Step r u := by
  cases hstep with
  | snapshot _ _ => exact .snapshot
  | other hstep _ => exact hstep

theorem LoneStep.engine (hstep : LoneStep r u) : r.store.engine.LoneStep u.store.engine := by
  cases hstep with
  | snapshot hclosed hnone =>
    exact r.store.engine_snapshot ▸ .snapshot r.store.history.tally hclosed hnone
  | other hstep hheld => exact .other hstep.engine hheld

theorem LoneReachable.reachable (hr : LoneReachable kind options r) : Reachable kind options r := by
  obtain ⟨s, hs, hsteps⟩ := hr
  exact ⟨s, hs, Relation.ReflTransGen.mono (fun _ _ ↦ LoneStep.step) _ _ hsteps⟩

theorem LoneReachable.engine (hr : LoneReachable kind options r) :
    Engine.LoneReachable options r.store.engine := by
  obtain ⟨s, hs, hsteps⟩ := hr
  obtain rfl := ContentStore.eq_of_create hs
  exact hsteps.lift (fun r ↦ r.store.engine) fun _ _ ↦ LoneStep.engine

end RecordedStore

/-! ### Both kinds of store -/

/-- Automatic collection bounds the lag of the floor. In every state of a run, a snapshot that makes
a new pin leaves the floor within the lag that the options allow, or as high as the held pins let it
be. In every state of a run in which each snapshot is given up before the next one is taken, outside
of the write sections, the floor is at most one generation further behind than the options allow, a
lag of zero counting as one. -/
theorem collection_keepsUp (κ α : Type) [Ord κ] [Std.TransOrd κ] [Std.LawfulEqOrd κ]
    (options : StoreOptions) (hauto : options.collect.auto = true) :
    ((∀ r : RecordedDictionary κ α, RecordedDictionary.Reachable options r →
        r.clock.reusable? = none →
          r.dictionary.snapshot.1.clock.FloorNear options.collect.minGenDelta) ∧
      ∀ r : RecordedDictionary κ α, RecordedDictionary.LoneReachable options r →
        r.clock.live - r.clock.floor ≤ max options.collect.minGenDelta 1 + 1) ∧
    ((∀ kind r, RecordedStore.Reachable kind options r → r.clock.reusable? = none →
        r.store.snapshot.1.clock.FloorNear options.collect.minGenDelta) ∧
      ∀ kind r, RecordedStore.LoneReachable kind options r →
        r.clock.live - r.clock.floor ≤ max options.collect.minGenDelta 1 + 1) := by
  refine ⟨⟨fun r hr hnew ↦ ?_, fun r hr ↦ (hr.engine.keepsUp hauto).lag_le⟩,
    ⟨fun kind r hr hnew ↦ ?_, fun kind r hr ↦ (hr.engine.keepsUp hauto).lag_le⟩⟩
  · have hnear := hr.engine.floorNear_snapshotted hauto hnew r.dictionary.items.tally
    rwa [← Dictionary.engine_snapshot] at hnear
  · have hnear := hr.engine.floorNear_snapshotted hauto hnew r.store.history.tally
    rwa [← ContentStore.engine_snapshot] at hnear

/-- Options under which every new pin starts a collection pass that the floor lags behind. -/
def eagerOptions : StoreOptions := ⟨⟨true, 0⟩, "collect"⟩

/-- A store that has seen one section. -/
def RecordedStore.oneSection : RecordedStore :=
  let s : ContentStore := ⟨.content, Engine.new eagerOptions, .empty, .empty⟩
  ⟨s.openSection.closeSection, [(1, s.openSection.live.view)]⟩

/-- The store after a snapshot that was given up, in its next section. -/
def RecordedStore.nextSection : RecordedStore :=
  { oneSection with store := (oneSection.store.snapshot.1.release ⟨1, 0⟩).openSection }

/-- A dictionary that has seen one section. -/
def RecordedDictionary.oneSection : RecordedDictionary Nat Nat :=
  let d : Dictionary Nat Nat := ⟨Engine.new eagerOptions, .empty⟩
  ⟨d.openSection.closeSection, []⟩

/-- The dictionary after a snapshot that was given up, in its next section. -/
def RecordedDictionary.nextSection : RecordedDictionary Nat Nat :=
  { oneSection with dictionary := (oneSection.dictionary.snapshot.1.release ⟨1, 0⟩).openSection }

theorem RecordedStore.loneReachable_oneSection :
    LoneReachable .content eagerOptions oneSection :=
  ⟨_, rfl, .tail (.tail .refl (.other (.openSection rfl) (Nat.le_refl _)))
    (.other (.closeSection rfl) (Nat.le_refl _))⟩

theorem RecordedStore.loneReachable_nextSection :
    LoneReachable .content eagerOptions nextSection := by
  obtain ⟨s, hs, hsteps⟩ := loneReachable_oneSection
  exact ⟨s, hs, .tail (.tail (.tail hsteps (.snapshot rfl rfl))
    (.other (.release (show ⟨1, 0⟩ ∈ _ by decide +kernel)) (by decide +kernel)))
    (.other (.openSection rfl) (Nat.le_refl _))⟩

theorem RecordedDictionary.loneReachable_oneSection :
    LoneReachable eagerOptions oneSection :=
  ⟨_, rfl, .tail (.tail .refl (.other (.openSection rfl) (Nat.le_refl _)))
    (.other (.closeSection rfl) (Nat.le_refl _))⟩

theorem RecordedDictionary.loneReachable_nextSection :
    LoneReachable eagerOptions nextSection := by
  obtain ⟨d, hd, hsteps⟩ := loneReachable_oneSection
  exact ⟨d, hd, .tail (.tail (.tail hsteps (.snapshot rfl rfl))
    (.other (.release (show ⟨1, 0⟩ ∈ _ by decide +kernel)) (by decide +kernel)))
    (.other (.openSection rfl) (Nat.le_refl _))⟩

/-- Although no lag is allowed, the pass of the first snapshot leaves the floor one generation
behind, right below the only pin; in the next section it is two generations behind, which is the
bound. -/
theorem collection_keepsUp_eager :
    RecordedDictionary.oneSection.dictionary.snapshot.1.clock.FloorNear 0 ∧
      RecordedStore.oneSection.store.snapshot.1.clock.FloorNear 0 ∧
      RecordedStore.oneSection.store.snapshot.1.clock.live = 1 ∧
      RecordedStore.oneSection.store.snapshot.1.clock.floor = 0 ∧
      RecordedDictionary.nextSection.clock.live - RecordedDictionary.nextSection.clock.floor = 2 ∧
      RecordedDictionary.nextSection.clock.live - RecordedDictionary.nextSection.clock.floor ≤
        max 0 1 + 1 ∧
      RecordedStore.nextSection.clock.live - RecordedStore.nextSection.clock.floor ≤ max 0 1 + 1 := by
  have hbounds := collection_keepsUp Nat Nat eagerOptions rfl
  exact ⟨hbounds.1.1 _ RecordedDictionary.loneReachable_oneSection.reachable rfl,
    hbounds.2.1 _ _ RecordedStore.loneReachable_oneSection.reachable rfl,
    by decide +kernel, by decide +kernel, by decide +kernel,
    hbounds.1.2 _ RecordedDictionary.loneReachable_nextSection,
    hbounds.2.2 _ _ RecordedStore.loneReachable_nextSection⟩

end VersionedContent
