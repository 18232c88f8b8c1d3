import VersionedContent.Proofs.ClockRuns

/-!
# How far the floor moves

One move of the floor takes the longest released part off the front of the queue, and the floor
becomes the generation of the last pin in it. Since the queued generations count up from the floor
or from the one after it, the floor rises by the number of pins taken, or by one less, and comes to
rest at the oldest held pin or right below it (`RecordedClock.Reachable.floorMoved`).
-/

set_option autoImplicit false

namespace VersionedContent

namespace Clock

variable {c : Clock}

/-! ### The pins that leave the queue -/

theorem not_held_of_mem_releasable {p : Pin} (hp : p ∈ c.releasable) : p ∉ c.held := by
  simpa using List.mem_takeWhile_imp hp

/-- Every released front of the queue leaves it. -/
theorem prefix_releasable {front : List Pin} (hfront : front <+: c.queue)
    (hfree : ∀ p ∈ front, p ∉ c.held) : front <+: c.releasable := by
  obtain ⟨rest, hrest⟩ := hfront
  have hall : ∀ p ∈ front, decide (p ∉ c.held) = true := fun p hp ↦ decide_eq_true (hfree p hp)
  rw [releasable, ← hrest, List.takeWhile_append_of_pos hall]
  exact List.prefix_append _ _

/-- What stays in the queue starts with a held pin. -/
theorem front_held_advanceFloor (c : Clock) :
    c.advanceFloor.1.queue = [] ∨
      ∃ p rest, c.advanceFloor.1.queue = p :: rest ∧ p ∈ c.advanceFloor.1.held := by
  cases hqueue : c.advanceFloor.1.queue with
  | nil => exact Or.inl rfl
  | cons p rest =>
    have hheld : p ∈ c.held := by
      have hhead := List.head?_dropWhile_not (fun p ↦ decide (p ∉ c.held)) c.queue
      rw [show c.queue.dropWhile (fun p ↦ decide (p ∉ c.held)) = p :: rest from hqueue] at hhead
      simpa using hhead
    exact Or.inr ⟨p, rest, rfl, hheld⟩

/-- After a move of the floor another one finds no pin to release. -/
theorem advanceFloor_advanceFloor (c : Clock) :
    c.advanceFloor.1.advanceFloor =
      (c.advanceFloor.1, ⟨c.advanceFloor.1.floor, c.advanceFloor.1.floor, 0⟩) := by
  have hnone : c.advanceFloor.1.releasable = [] := by
    rcases front_held_advanceFloor c with hempty | ⟨p, rest, hqueue, hheld⟩
    · rw [releasable, hempty, List.takeWhile_nil]
    · rw [releasable, hqueue, List.takeWhile_cons_of_neg (by simpa using hheld)]
  have hqueue : c.advanceFloor.1.advanceFloor.1.queue = c.advanceFloor.1.queue := by
    have happend := releasable_append c.advanceFloor.1
    rwa [hnone, List.nil_append] at happend
  have hfloor : c.advanceFloor.1.advanceFloor.1.floor = c.advanceFloor.1.floor := by
    show c.advanceFloor.1.releasable.foldl _ _ = _
    rw [hnone, List.foldl_nil]
  calc c.advanceFloor.1.advanceFloor
      = ({ c.advanceFloor.1 with
            floor := c.advanceFloor.1.advanceFloor.1.floor
            queue := c.advanceFloor.1.advanceFloor.1.queue },
          ⟨c.advanceFloor.1.floor, c.advanceFloor.1.advanceFloor.1.floor,
            c.advanceFloor.1.releasable.length⟩) := rfl
    _ = _ := by rw [hfloor, hqueue, hnone]; rfl

/-! ### The floor -/

/-- Where the queued generations start. -/
theorem Sound.first_generation (h : c.Sound) :
    c.newest + 1 - c.queue.length = c.floor ∨ c.newest + 1 - c.queue.length = c.floor + 1 := by
  have hlength := h.floor_add_length
  have hfloor := h.floor_le_newest
  lia

/-- The floor becomes the generation of the last pin that leaves the queue. -/
theorem Sound.floor_eq_last_released (h : c.Sound) :
    c.advanceFloor.1.floor = (c.releasable.getLast?.map Pin.generation).getD c.floor := by
  rw [h.floor_advanceFloor, ← List.getLast?_map, h.split_generations.1, List.getLast?_range']
  split_ifs
  · rfl
  · simp

/-- The floor rises by the number of pins that leave the queue; the first of them does not count
when the floor had reached it before. -/
theorem Sound.rise_advanceFloor (h : c.Sound) :
    c.advanceFloor.1.floor +
        (if c.releasable.head?.map Pin.generation = some c.floor then 1 else 0) =
      c.floor + c.releasable.length := by
  rw [h.floor_advanceFloor, ← List.head?_map, h.split_generations.1, List.head?_range']
  have hfirst := h.first_generation
  by_cases hnone : c.releasable.length = 0
  · simp [hnone]
  · simp only [hnone, if_false, Option.some.injEq]
    split_ifs <;> lia

/-- The floor comes to rest at the oldest held pin or right below it. -/
theorem Sound.oldest_held_advanceFloor (h : c.Sound) (hheld : c.held ≠ []) :
    ∃ oldest ∈ c.held, (∀ p ∈ c.held, oldest.generation ≤ p.generation) ∧
      (c.advanceFloor.1.floor = oldest.generation ∨
        c.advanceFloor.1.floor + 1 = oldest.generation) := by
  have hafter := h.advanceFloor
  obtain ⟨some_held, hsome⟩ := List.exists_mem_of_ne_nil _ hheld
  rcases front_held_advanceFloor c with hempty | ⟨oldest, rest, hqueue, hfront⟩
  · have hqueued := hafter.queued_of_held some_held hsome
    rw [hempty] at hqueued
    exact absurd hqueued List.not_mem_nil
  · -- every held pin has stayed, and the generations that stay count up from the front
    have hfirst := hafter.first_generation
    have hgenerations := hafter.queue_generations
    have holdest : oldest.generation =
        c.advanceFloor.1.newest + 1 - c.advanceFloor.1.queue.length := by
      have hhead := congrArg List.head? hgenerations
      rw [List.head?_range', hqueue] at hhead
      simpa [hqueue] using hhead
    refine ⟨oldest, hfront, fun p hp ↦ ?_, by lia⟩
    have hmem := List.mem_map_of_mem (f := Pin.generation) (hafter.queued_of_held p hp)
    rw [hgenerations, List.mem_range'_1] at hmem
    lia

/-! ### One move -/

/-- What one move of the floor makes of a clock, with the pins that leave the queue and the report
on it. -/
structure FloorMoved (c : Clock) (released : List Pin) (after : Clock) (advance : FloorAdvance) :
    Prop where
  /-- The pins leave from the front, in the order of the queue. -/
  queue_eq : c.queue = released ++ after.queue
  not_held : ∀ p ∈ released, p ∉ c.held
  /-- No released front of the queue is longer. -/
  longest : ∀ front, front <+: c.queue → (∀ p ∈ front, p ∉ c.held) → front <+: released
  floor_eq : after.floor = (released.getLast?.map Pin.generation).getD c.floor
  rise : after.floor + (if released.head?.map Pin.generation = some c.floor then 1 else 0) =
    c.floor + released.length
  front_held : after.queue = [] ∨ ∃ p rest, after.queue = p :: rest ∧ p ∈ after.held
  oldest_held : after.held ≠ [] → ∃ oldest ∈ after.held,
    (∀ p ∈ after.held, oldest.generation ≤ p.generation) ∧
      (after.floor = oldest.generation ∨ after.floor + 1 = oldest.generation)
  advance_eq : advance = ⟨c.floor, after.floor, released.length⟩
  /-- Only the floor and the queue change. -/
  others_eq : after = { c with floor := after.floor, queue := after.queue }

theorem Sound.moved_advanceFloor (h : c.Sound) :
    FloorMoved c c.releasable c.advanceFloor.1 c.advanceFloor.2 where
  queue_eq := (releasable_append c).symm
  not_held _ := not_held_of_mem_releasable
  longest _ := prefix_releasable
  floor_eq := h.floor_eq_last_released
  rise := h.rise_advanceFloor
  front_held := front_held_advanceFloor c
  oldest_held := h.oldest_held_advanceFloor
  advance_eq := rfl
  others_eq := rfl

end Clock

namespace RecordedClock

variable {r : RecordedClock}

/-- In every state of a run, a move of the floor takes the longest released front off the queue, in
order. The floor becomes the generation of the last pin taken, and so rises by their number, less
one exactly when it stood at the first of them; it comes to rest at the oldest held pin or right
below it. -/
theorem Reachable.floorMoved (hr : Reachable r) :
    ∃ released, Clock.FloorMoved r.clock released r.clock.advanceFloor.1 r.clock.advanceFloor.2 :=
  ⟨r.clock.releasable, hr.accounted.sound.moved_advanceFloor⟩

/-- A pin of the empty store and one after each of two sections. -/
def threePinned : RecordedClock :=
  ⟨Clock.new.issue.1.openSection.closeSection.issue.1.openSection.closeSection.issue.1,
    [⟨0, 0⟩, ⟨1, 1⟩, ⟨2, 2⟩], [1, 2]⟩

/-- Only the newest of the three pins is still held. -/
def twoReleased : RecordedClock :=
  { threePinned with clock := (threePinned.clock.release ⟨0, 0⟩).release ⟨1, 1⟩ }

theorem reachable_threePinned : Reachable threePinned :=
  .tail (.tail (.tail (.tail (.tail (.tail (.tail .refl .issue) (.openSection rfl))
    (.closeSection rfl)) .issue) (.openSection rfl)) (.closeSection rfl)) .issue

theorem reachable_twoReleased : Reachable twoReleased :=
  (reachable_threePinned.tail (.release (show ⟨0, 0⟩ ∈ _ by decide))).tail
    (.release (show ⟨1, 1⟩ ∈ (threePinned.clock.release ⟨0, 0⟩).held by decide))

/-- Two pins leave the queue, and the floor, which stood at the first of them, rises by one. -/
theorem Reachable.floorMoved_twoReleased :
    ∃ released, Clock.FloorMoved twoReleased.clock released twoReleased.clock.advanceFloor.1
      { previous := 0, floor := 1, released := 2 } :=
  reachable_twoReleased.floorMoved

end RecordedClock

end VersionedContent
