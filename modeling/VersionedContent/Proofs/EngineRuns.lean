import Mathlib.Logic.Relation
import VersionedContent.Engine
import VersionedContent.Proofs.PinQueue

/-!
# Runs of an engine

A dictionary and a store run on the same engine. Whatever a step of either does to its tables, it
leaves the options of the engine as they are, and moves the clock in one of few ways
(`Engine.Step`). What a move keeps is said of the clock here, once for all stores: a sound clock
stays sound, and neither its live generation nor its newest pin becomes older. A run of a dictionary
or of a store is a run of its engine, so the engine is sound and has the options of the beginning in
every state (`Engine.Reachable.sound`, `Engine.Reachable.options_eq`).
-/

set_option autoImplicit false

namespace VersionedContent

/-! ### The clock -/

namespace Clock

variable {c after : Clock}

/-- A clock that has handed out a pin, with or without a collection pass after it. -/
def IssuesTo (c after : Clock) : Prop :=
  after = c.issue.1 ∨ after = c.issue.1.advanceFloor.1

namespace IssuesTo

theorem live_eq (h : c.IssuesTo after) : after.live = c.live := by
  rcases h with rfl | rfl
  · exact live_issue c
  · exact live_issue c

theorem writing_eq (h : c.IssuesTo after) : after.writing = c.writing := by
  rcases h with rfl | rfl
  · exact writing_issue c
  · exact writing_issue c

theorem issue_mem_held (h : c.IssuesTo after) : c.issue.2 ∈ after.held := by
  rcases h with rfl | rfl
  · exact Clock.issue_mem_held c
  · exact Clock.issue_mem_held c

theorem held_eq (h : c.IssuesTo after) : after.held = c.issue.2 :: c.held := by
  have hissue : c.issue.1.held = c.issue.2 :: c.held := by
    unfold issue
    split <;> rfl
  rcases h with rfl | rfl <;> exact hissue

theorem newest_eq (h : c.IssuesTo after) : after.newest = c.complete := by
  rcases h with rfl | rfl <;> exact newest_issue c

theorem sound (h : c.IssuesTo after) (hsound : c.Sound) : after.Sound := by
  rcases h with rfl | rfl
  · exact hsound.issue
  · exact hsound.issue.advanceFloor

end IssuesTo

/-- What one step of a store can do to its clock. -/
inductive Move : Clock → Clock → Prop
  | stay {c : Clock} : Move c c
  | openSection {c : Clock} : Move c c.openSection
  | closeSection {c : Clock} : Move c c.closeSection
  | issue {c after : Clock} (hissues : c.IssuesTo after) : Move c after
  | clone {c : Clock} {pin : Pin} (hheld : pin ∈ c.held) : Move c (c.clone pin)
  | release {c : Clock} {pin : Pin} : Move c (c.release pin)
  | advanceFloor {c : Clock} : Move c c.advanceFloor.1

theorem Sound.move (h : c.Sound) (hmove : c.Move after) : after.Sound := by
  cases hmove with
  | stay => exact h
  | openSection => exact h.openSection
  | closeSection => exact h.closeSection
  | issue hissues => exact hissues.sound h
  | clone hheld => exact h.clone hheld
  | release => exact h.release _
  | advanceFloor => exact h.advanceFloor

theorem Move.live_le (hmove : c.Move after) : c.live ≤ after.live := by
  cases hmove with
  | openSection => exact live_le_openSection c
  | issue hissues => exact hissues.live_eq.ge
  | _ => exact Nat.le_refl _

/-- No move makes the newest pin older. -/
theorem Sound.newest_le_move (h : c.Sound) (hmove : c.Move after) : c.newest ≤ after.newest := by
  cases hmove with
  | openSection => exact (newest_openSection c).ge
  | issue hissues =>
    rw [hissues.newest_eq, ← newest_issue]
    exact h.newest_le_issue
  | _ => exact Nat.le_refl _

end Clock

/-! ### The engine -/

namespace Engine

variable {e u : Engine} {options : StoreOptions}

/-- The engine after a snapshot: it has handed out a pin, and a collection pass has followed if one
was due. -/
def snapshotted (e : Engine) (tally : Generation → PruneTally) : Engine :=
  if e.issue.2.2 then (e.issue.1.collect tally).1 else e.issue.1

/-- What one step of a store does to its engine. -/
structure Step (e u : Engine) : Prop where
  options_eq : u.options = e.options
  move : e.clock.Move u.clock

/-- The engines of the runs that start with a new store. -/
def Reachable (options : StoreOptions) (e : Engine) : Prop :=
  Relation.ReflTransGen Step (new options) e

theorem issuesTo_snapshotted (e : Engine) (tally : Generation → PruneTally) :
    e.clock.IssuesTo (e.snapshotted tally).clock := by
  unfold snapshotted
  split_ifs
  · exact Or.inr rfl
  · exact Or.inl rfl

theorem step_snapshotted (e : Engine) (tally : Generation → PruneTally) :
    e.Step (e.snapshotted tally) where
  options_eq := by
    unfold snapshotted
    split_ifs <;> rfl
  move := .issue (e.issuesTo_snapshotted tally)

theorem Reachable.options_eq (he : Reachable options e) : e.options = options := by
  induction he with
  | refl => rfl
  | tail _ hstep ih => exact hstep.options_eq.trans ih

theorem Reachable.sound (he : Reachable options e) : e.clock.Sound := by
  induction he with
  | refl => exact Clock.sound_new
  | tail _ hstep ih => exact ih.move hstep.move

end Engine

end VersionedContent
