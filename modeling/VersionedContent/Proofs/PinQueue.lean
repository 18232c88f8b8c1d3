import Mathlib.Data.List.Nodup
import Mathlib.Data.List.TakeWhile
import Mathlib.Tactic.SplitIfs
import VersionedContent.Clock

/-!
# The queue of pins

A clock hands out pins and takes the released ones off the front of its queue. The queued
generations are consecutive: they start at the floor or right above it and end at the newest pin
handed out (`Sound`). Every step of a clock keeps this. A held pin is queued, so its generation is
never below the floor (`Sound.floor_le_of_mem_held`), and an open write section works at a
generation above that of every pin (`Sound.generation_lt_live`).
-/

set_option autoImplicit false

namespace VersionedContent.Clock

variable {c : Clock}

/-- Generation of the pin issued last; zero before the first. -/
def newest (c : Clock) : Generation := (c.current.map Pin.generation).getD 0

/-- What holds of a clock at any time. -/
structure Sound (c : Clock) : Prop where
  dirty_of_writing : c.writing = true → c.dirty = true
  live_eq : c.live = c.newest + c.dirty.toNat
  floor_le_newest : c.floor ≤ c.newest
  floor_add_length : c.floor + c.queue.length = c.newest ∨ c.floor + c.queue.length = c.newest + 1
  queue_generations :
    c.queue.map Pin.generation = List.range' (c.newest + 1 - c.queue.length) c.queue.length
  back_eq_current : ∀ back, c.queue.getLast? = some back → c.current = some back
  queued_of_held : ∀ p ∈ c.held, p ∈ c.queue

/-- The clock of an empty store is sound. -/
theorem sound_new : Sound new where
  dirty_of_writing := by simp [new]
  live_eq := rfl
  floor_le_newest := le_refl 0
  floor_add_length := Or.inl rfl
  queue_generations := rfl
  back_eq_current := by simp [new]
  queued_of_held := by simp [new]

/-! ### Reading the invariant -/

/-- The generation of a queued pin lies between the floor and the newest pin. -/
theorem Sound.bounds_of_mem_queue (h : c.Sound) {p : Pin} (hp : p ∈ c.queue) :
    c.floor ≤ p.generation ∧ p.generation ≤ c.newest := by
  have hmem : p.generation ∈ c.queue.map Pin.generation := List.mem_map_of_mem hp
  rw [h.queue_generations, List.mem_range'_1] at hmem
  have hlength := h.floor_add_length
  have hfloor := h.floor_le_newest
  lia

/-- A held pin keeps the floor at or below its generation. -/
theorem Sound.floor_le_of_mem_held (h : c.Sound) {p : Pin} (hp : p ∈ c.held) :
    c.floor ≤ p.generation :=
  (h.bounds_of_mem_queue (h.queued_of_held p hp)).1

theorem Sound.nodup_generations (h : c.Sound) : (c.queue.map Pin.generation).Nodup := by
  rw [h.queue_generations]
  exact List.nodup_range'

/-- The generation of a queued pin tells it from the others. -/
theorem Sound.eq_of_generation_eq (h : c.Sound) {p q : Pin} (hp : p ∈ c.queue)
    (hq : q ∈ c.queue) (hgeneration : p.generation = q.generation) : p = q :=
  List.inj_on_of_nodup_map h.nodup_generations hp hq hgeneration

theorem Sound.newest_le_live (h : c.Sound) : c.newest ≤ c.live := by
  rw [h.live_eq]
  exact Nat.le_add_right _ _

/-- While a section is open, the live generation is the one after the newest pin. -/
theorem Sound.live_eq_of_writing (h : c.Sound) (hwriting : c.writing = true) :
    c.live = c.newest + 1 := by
  rw [h.live_eq, h.dirty_of_writing hwriting]
  rfl

/-- No held pin shows the generation of an open section. -/
theorem Sound.generation_lt_live (h : c.Sound) (hwriting : c.writing = true) {p : Pin}
    (hp : p ∈ c.held) : p.generation < c.live := by
  have hle := (h.bounds_of_mem_queue (h.queued_of_held p hp)).2
  rw [h.live_eq_of_writing hwriting]
  lia

/-- The newest complete generation is that of the newest pin, or the one after it when a section
has ended since. -/
theorem Sound.complete_eq (h : c.Sound) :
    c.complete = c.newest + (c.dirty && !c.writing).toNat := by
  have hlive := h.live_eq
  have hdirty := h.dirty_of_writing
  unfold complete
  cases hw : c.writing <;> cases hd : c.dirty <;> simp_all

/-- With no section open there are no unfinished writes. -/
theorem complete_of_closed (hclosed : c.writing = false) : c.complete = c.live := by
  simp [complete, hclosed]

/-- The complete generations are those before that of the open section. -/
theorem Sound.le_complete_iff (h : c.Sound) (hwriting : c.writing = true)
    {generation : Generation} : generation ≤ c.complete ↔ generation < c.live := by
  have hlive := h.live_eq_of_writing hwriting
  have hcomplete := h.complete_eq
  simp only [hwriting, Bool.not_true, Bool.and_false, Bool.toNat_false] at hcomplete
  lia

/-! ### Sections and handles -/

/-- Opening a section lowers no counter, and moves the live one only. -/
theorem live_le_openSection (c : Clock) : c.live ≤ c.openSection.live := by
  unfold openSection
  split_ifs
  · exact Nat.le_refl _
  · exact Nat.le_succ _

@[simp] theorem floor_openSection (c : Clock) : c.openSection.floor = c.floor := by
  unfold openSection
  split_ifs <;> rfl

@[simp] theorem newest_openSection (c : Clock) : c.openSection.newest = c.newest := by
  unfold openSection
  split_ifs <;> rfl

@[simp] theorem writing_openSection (c : Clock) : c.openSection.writing = true := by
  unfold openSection
  split_ifs <;> rfl

theorem Sound.openSection (h : c.Sound) : c.openSection.Sound := by
  unfold Clock.openSection
  split_ifs with hdirty
  · exact { h with dirty_of_writing := fun _ ↦ hdirty }
  · refine { h with dirty_of_writing := fun _ ↦ rfl, live_eq := ?_ }
    have hlive : c.live = c.newest := by simpa [hdirty] using h.live_eq
    exact congrArg (· + 1) hlive

theorem Sound.closeSection (h : c.Sound) : c.closeSection.Sound :=
  { h with dirty_of_writing := by simp [Clock.closeSection] }

theorem Sound.clone (h : c.Sound) {p : Pin} (hp : p ∈ c.held) : (c.clone p).Sound :=
  { h with
    queued_of_held := fun q hq ↦ by
      rcases List.mem_cons.mp hq with rfl | hold
      · exact h.queued_of_held _ hp
      · exact h.queued_of_held _ hold }

theorem Sound.release (h : c.Sound) (p : Pin) : (c.release p).Sound :=
  { h with queued_of_held := fun q hq ↦ h.queued_of_held q (List.mem_of_mem_erase hq) }

/-! ### Issue -/

theorem reusable?_eq_some_iff {p : Pin} :
    c.reusable? = some p ↔ c.current = some p ∧ p ∈ c.held ∧ p.generation = c.complete := by
  simp [reusable?, Option.filter_eq_some_iff]

/-- The pin handed out shows the newest complete generation. -/
theorem generation_issue (c : Clock) : c.issue.2.generation = c.complete := by
  unfold issue
  split
  · next p hp => exact (reusable?_eq_some_iff.mp hp).2.2
  · rfl

theorem issue_mem_held (c : Clock) : c.issue.2 ∈ c.issue.1.held := by
  unfold issue
  split <;> exact List.mem_cons_self

theorem mem_held_issue {p : Pin} (hp : p ∈ c.held) : p ∈ c.issue.1.held := by
  unfold issue
  split <;> exact List.mem_cons_of_mem _ hp

theorem current_issue (c : Clock) : c.issue.1.current = some c.issue.2 := by
  unfold issue
  split
  · next p hp => exact (reusable?_eq_some_iff.mp hp).1
  · rfl

/-- The newest pin shows the newest complete generation once it has been handed out. -/
theorem newest_issue (c : Clock) : c.issue.1.newest = c.complete := by
  rw [newest, current_issue, Option.map_some, Option.getD_some, generation_issue]

@[simp] theorem live_issue (c : Clock) : c.issue.1.live = c.live := by
  unfold issue
  split <;> rfl

@[simp] theorem floor_issue (c : Clock) : c.issue.1.floor = c.floor := by
  unfold issue
  split <;> rfl

@[simp] theorem writing_issue (c : Clock) : c.issue.1.writing = c.writing := by
  unfold issue
  split <;> rfl

theorem mem_enqueue_self (c : Clock) (p : Pin) : p ∈ c.enqueue p := by
  unfold enqueue
  split
  · split_ifs <;> simp
  · simp

/-- A pin at the back gives up its place only when it is not held. -/
theorem mem_enqueue_of_held {p q : Pin} (hq : q ∈ c.queue) (hheld : q ∈ c.held) :
    q ∈ c.enqueue p := by
  unfold enqueue
  split
  · next back hback =>
    split_ifs with hgone
    · obtain ⟨rest, hrest⟩ := List.getLast?_eq_some_iff.mp hback
      rw [hrest] at hq ⊢
      rcases List.mem_append.mp hq with hfront | hlast
      · exact List.mem_append_left _ (by simpa using hfront)
      · rw [List.mem_singleton.mp hlast] at hheld
        exact absurd hheld hgone.2
    · exact List.mem_append_left _ hq
  · next hnone =>
    rw [List.getLast?_eq_none_iff.mp hnone] at hq
    exact absurd hq List.not_mem_nil

theorem getLast?_enqueue (c : Clock) (p : Pin) : (c.enqueue p).getLast? = some p := by
  unfold enqueue
  split
  · split_ifs <;> simp
  · rfl

/-- A fresh pin takes the place of the pin at the back when both show one generation, and else
stands behind it, one generation later. Assumes: no pin is reusable. -/
theorem Sound.enqueue_fresh (h : c.Sound) (hnone : c.reusable? = none) :
    (c.complete = c.newest ∧
        (c.enqueue c.fresh).map Pin.generation = c.queue.map Pin.generation) ∨
      ((c.queue = [] ∨ c.complete = c.newest + 1) ∧ c.enqueue c.fresh = c.queue ++ [c.fresh]) := by
  unfold enqueue
  split
  · next back hback =>
    obtain ⟨rest, hrest⟩ := List.getLast?_eq_some_iff.mp hback
    have hcurrent := h.back_eq_current back hback
    have hnewest : c.newest = back.generation := by simp [newest, hcurrent]
    split_ifs with hgone
    · refine Or.inl ⟨by rw [hnewest]; exact hgone.1.symm, ?_⟩
      simp [hrest, hgone.1]
    · refine Or.inr ⟨Or.inr ?_, rfl⟩
      have hother : back.generation ≠ c.complete := by
        intro hsame
        refine hgone ⟨hsame, fun hheld ↦ ?_⟩
        have hreuse := reusable?_eq_some_iff.mpr ⟨hcurrent, hheld, hsame⟩
        simp [hnone] at hreuse
      have hcomplete := h.complete_eq
      rw [hnewest] at hcomplete ⊢
      cases hflag : c.dirty && !c.writing <;> simp_all
  · next hempty =>
    rw [List.getLast?_eq_none_iff.mp hempty]
    exact Or.inr ⟨Or.inl rfl, rfl⟩

/-- The queue behind a fresh pin counts up to its generation. Assumes: no pin is reusable. -/
theorem Sound.enqueue_consecutive (h : c.Sound) (hnone : c.reusable? = none) :
    (c.floor + (c.enqueue c.fresh).length = c.complete ∨
        c.floor + (c.enqueue c.fresh).length = c.complete + 1) ∧
      (c.enqueue c.fresh).map Pin.generation =
        List.range' (c.complete + 1 - (c.enqueue c.fresh).length) (c.enqueue c.fresh).length := by
  have hfloor := h.floor_le_newest
  have hlength := h.floor_add_length
  rcases h.enqueue_fresh hnone with ⟨hsame, hmap⟩ | ⟨hnext, happend⟩
  · have hcount : (c.enqueue c.fresh).length = c.queue.length := by
      simpa using congrArg List.length hmap
    rw [hcount, hmap, hsame]
    exact ⟨hlength, h.queue_generations⟩
  · have hcomplete := h.complete_eq
    have hbit := Bool.toNat_le (c.dirty && !c.writing)
    have hend : c.queue.length = 0 ∨ c.complete = c.newest + 1 :=
      hnext.imp List.length_eq_zero_iff.mpr id
    rw [happend, List.map_append, h.queue_generations, List.length_append, List.length_singleton]
    refine ⟨by lia, ?_⟩
    have hstart : c.complete + 1 - (c.queue.length + 1) = c.complete - c.queue.length := by lia
    rw [hstart, List.range'_concat, Nat.one_mul]
    have hback : c.complete - c.queue.length + c.queue.length = c.fresh.generation := by
      change _ = c.complete
      lia
    rw [hback, List.map_singleton]
    rcases hend with hempty | hafter
    · simp [hempty]
    · rw [hafter]

theorem Sound.issue (h : c.Sound) : c.issue.1.Sound := by
  unfold Clock.issue
  split
  · next p hp =>
    exact { h with
      queued_of_held := fun q hq ↦ by
        rcases List.mem_cons.mp hq with rfl | hold
        · exact h.queued_of_held _ (reusable?_eq_some_iff.mp hp).2.1
        · exact h.queued_of_held _ hold }
  · next hnone =>
    have hcomplete := h.complete_eq
    have hlive := h.live_eq
    have hdirty := h.dirty_of_writing
    obtain ⟨hlength, hgenerations⟩ := h.enqueue_consecutive hnone
    refine ⟨?_, ?_, ?_, hlength, hgenerations, ?_, ?_⟩
    · intro hwriting
      simp [hdirty hwriting, show c.writing = true from hwriting]
    · change c.live = c.complete + (c.dirty && c.writing).toNat
      cases hw : c.writing <;> cases hd : c.dirty <;> simp_all
    · change c.floor ≤ c.complete
      have hfloor := h.floor_le_newest
      lia
    · intro back hback
      rw [← hback]
      exact (getLast?_enqueue c c.fresh).symm
    · intro q hq
      rcases List.mem_cons.mp hq with rfl | hold
      · exact mem_enqueue_self c _
      · exact mem_enqueue_of_held (h.queued_of_held q hold) hold

/-- The newest pin never gets older. -/
theorem Sound.newest_le_issue (h : c.Sound) : c.newest ≤ c.issue.1.newest := by
  unfold Clock.issue
  split
  · exact Nat.le_refl _
  · change c.newest ≤ c.complete
    rw [h.complete_eq]
    exact Nat.le_add_right _ _

/-! ### The floor -/

theorem foldl_max_range' (floor first : Nat) (hle : floor ≤ first) (count : Nat) :
    (List.range' first count).foldl max floor = if count = 0 then floor else first + count - 1 := by
  induction count with
  | zero => rfl
  | succ count ih =>
    rw [List.range'_concat, List.foldl_append, ih]
    split_ifs <;> simp <;> lia

/-- The released pins are in front of those that stay. -/
theorem releasable_append (c : Clock) : c.releasable ++ c.advanceFloor.1.queue = c.queue :=
  List.takeWhile_append_dropWhile

/-- The generations of the released pins count up from the front of the queue, and those of the
pins that stay count up after them. -/
theorem Sound.split_generations (h : c.Sound) :
    c.releasable.map Pin.generation =
        List.range' (c.newest + 1 - c.queue.length) c.releasable.length ∧
      c.advanceFloor.1.queue.map Pin.generation =
        List.range' (c.newest + 1 - c.advanceFloor.1.queue.length)
          c.advanceFloor.1.queue.length := by
  have hsplit := releasable_append c
  have hcount : c.releasable.length + c.advanceFloor.1.queue.length = c.queue.length := by
    rw [← List.length_append, hsplit]
  have hall := h.queue_generations
  have hfloor := h.floor_le_newest
  have hlength := h.floor_add_length
  rw [← hcount, ← List.range'_append_1, ← hsplit, List.map_append] at hall
  obtain ⟨hfront, hback⟩ := List.append_inj hall (by simp)
  refine ⟨by rw [hfront, hcount], ?_⟩
  rw [hback]
  congr 1
  lia

/-- The floor moves to the generation of the last released pin, if there is one. -/
theorem Sound.floor_advanceFloor (h : c.Sound) :
    c.advanceFloor.1.floor =
      if c.releasable.length = 0 then c.floor
      else c.newest + 1 - c.queue.length + c.releasable.length - 1 := by
  have hfloor := h.floor_le_newest
  have hlength := h.floor_add_length
  have hmax : c.advanceFloor.1.floor =
      (c.releasable.map Pin.generation).foldl max c.floor := by
    rw [List.foldl_map]
    rfl
  rw [hmax, h.split_generations.1, foldl_max_range' _ _ (by lia)]

/-- A pass never lowers the floor. -/
theorem Sound.floor_le_advanceFloor (h : c.Sound) : c.floor ≤ c.advanceFloor.1.floor := by
  have hfloor := h.floor_le_newest
  have hlength := h.floor_add_length
  rw [h.floor_advanceFloor]
  split_ifs
  · exact Nat.le_refl _
  · lia

theorem Sound.advanceFloor (h : c.Sound) : c.advanceFloor.1.Sound := by
  have hsplit := releasable_append c
  have hcount : c.releasable.length + c.advanceFloor.1.queue.length = c.queue.length := by
    rw [← List.length_append, hsplit]
  have hfloor := h.floor_le_newest
  have hlength := h.floor_add_length
  have hmoved := h.floor_advanceFloor
  refine ⟨h.dirty_of_writing, h.live_eq, ?_, ?_, h.split_generations.2, ?_, ?_⟩
  · change c.advanceFloor.1.floor ≤ c.newest
    split_ifs at hmoved <;> lia
  · change c.advanceFloor.1.floor + _ = c.newest ∨ c.advanceFloor.1.floor + _ = c.newest + 1
    split_ifs at hmoved <;> lia
  · intro back hback
    refine h.back_eq_current back ?_
    rw [← hsplit, List.getLast?_append, hback]
    rfl
  · intro p hp
    have hqueued := h.queued_of_held p hp
    rw [← hsplit] at hqueued
    rcases List.mem_append.mp hqueued with hreleased | hstays
    · have hgone : p ∉ c.held := by simpa using List.mem_takeWhile_imp hreleased
      exact absurd hp hgone
    · exact hstays

end VersionedContent.Clock
