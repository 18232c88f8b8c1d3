import Mathlib.Data.List.Infix
import Mathlib.Logic.Relation
import VersionedContent.Proofs.PinQueue

/-!
# Runs of a clock

`RecordedClock` keeps, beside a clock, every pin it has handed out and the generation of every
section begun. Whatever sections, issues, clones, releases and moves of the floor a run is made of,
the collector never passes a generation that a held pin shows or that a later one will show
(`RecordedClock.Reachable.collectorSafe`). Pins are handed out in the order of their generations,
below that of an open section, and one at a time: two held pins of one generation are the same pin
(`RecordedClock.Reachable.issueDiscipline`).
-/

set_option autoImplicit false

namespace VersionedContent

/-- A clock beside what it has done so far. -/
structure RecordedClock where
  clock : Clock
  /-- The pins handed out, oldest first, one for every issue. -/
  handed : List Pin
  /-- The generations of the sections begun, oldest first. -/
  begun : List Generation

namespace RecordedClock

/-- A new clock. -/
def new : RecordedClock := ⟨Clock.new, [], []⟩

/-- The recorded clock after an issue. -/
def issue (r : RecordedClock) : RecordedClock :=
  { r with clock := r.clock.issue.1, handed := r.handed ++ [r.clock.issue.2] }

/-- Generation of the open section. -/
def openGeneration? (r : RecordedClock) : Option Generation :=
  if r.clock.writing then r.begun.getLast? else none

/-- One step of a run. There is one writer, who ends the section begun last before the next; handles
are cloned and released by their holders; an issue and a move of the floor may happen at any
time. -/
inductive Step : RecordedClock → RecordedClock → Prop
  | openSection {r : RecordedClock} (hclosed : r.clock.writing = false) :
    Step r { r with
      clock := r.clock.openSection, begun := r.begun ++ [r.clock.openSection.live] }
  | closeSection {r : RecordedClock} (hopen : r.clock.writing = true) :
    Step r { r with clock := r.clock.closeSection }
  | issue {r : RecordedClock} : Step r r.issue
  | clone {r : RecordedClock} {pin : Pin} (hheld : pin ∈ r.clock.held) :
    Step r { r with clock := r.clock.clone pin }
  | release {r : RecordedClock} {pin : Pin} (hheld : pin ∈ r.clock.held) :
    Step r { r with clock := r.clock.release pin }
  | advanceFloor {r : RecordedClock} : Step r { r with clock := r.clock.advanceFloor.1 }

/-- What any number of steps lead to. -/
abbrev Steps : RecordedClock → RecordedClock → Prop := Relation.ReflTransGen Step

/-- The states of the runs that start with a new clock. -/
def Reachable (r : RecordedClock) : Prop := Steps new r

variable {r u : RecordedClock}

/-! ### The invariant of a run -/

/-- What the pins handed out and the sections begun tell of the clock. -/
structure Accounted (r : RecordedClock) : Prop where
  sound : r.clock.Sound
  last_handed : r.handed.getLast? = r.clock.current
  handed_le : ∀ p ∈ r.handed, p.generation ≤ r.clock.newest
  ascending : (r.handed.map Pin.generation).Pairwise (· ≤ ·)
  handed_out : ∀ generation, 1 ≤ generation → generation ≤ r.clock.newest →
    ∃ p ∈ r.handed, p.generation = generation
  serial_lt : ∀ p ∈ r.handed, p.serial < r.clock.issued
  last_begun : r.clock.writing = true → r.begun.getLast? = some r.clock.live

theorem accounted_new : Accounted new where
  sound := Clock.sound_new
  last_handed := rfl
  handed_le := by simp [new]
  ascending := List.Pairwise.nil
  handed_out generation hpos hle := by
    have hnewest : new.clock.newest = 0 := rfl
    lia
  serial_lt := by simp [new]
  last_begun := by simp [new, Clock.new]

/-- Steps that neither hand out a pin nor begin a section keep the invariant. -/
theorem Accounted.withClock (h : r.Accounted) {c : Clock} (hsound : c.Sound)
    (hcurrent : c.current = r.clock.current) (hissued : c.issued = r.clock.issued)
    (hlive : c.live = r.clock.live) (hwriting : c.writing = true → r.clock.writing = true) :
    Accounted { r with clock := c } := by
  have hnewest : c.newest = r.clock.newest := by rw [Clock.newest, hcurrent, Clock.newest]
  exact
    { sound := hsound
      last_handed := h.last_handed.trans hcurrent.symm
      handed_le := fun p hp ↦ hnewest ▸ h.handed_le p hp
      ascending := h.ascending
      handed_out := fun generation hpos hle ↦ h.handed_out generation hpos (hnewest ▸ hle)
      serial_lt := fun p hp ↦ hissued ▸ h.serial_lt p hp
      last_begun := fun hopen ↦ hlive ▸ h.last_begun (hwriting hopen) }

theorem Accounted.openSection (h : r.Accounted) :
    Accounted { r with
      clock := r.clock.openSection, begun := r.begun ++ [r.clock.openSection.live] } := by
  have hcurrent : r.clock.openSection.current = r.clock.current := by
    unfold Clock.openSection
    split_ifs <;> rfl
  have hissued : r.clock.openSection.issued = r.clock.issued := by
    unfold Clock.openSection
    split_ifs <;> rfl
  have hnewest := Clock.newest_openSection r.clock
  exact
    { sound := h.sound.openSection
      last_handed := h.last_handed.trans hcurrent.symm
      handed_le := fun p hp ↦ hnewest ▸ h.handed_le p hp
      ascending := h.ascending
      handed_out := fun generation hpos hle ↦ h.handed_out generation hpos (hnewest ▸ hle)
      serial_lt := fun p hp ↦ hissued ▸ h.serial_lt p hp
      last_begun := fun _ ↦ List.getLast?_concat }

/-- An issue hands out the pin issued last, which is still held, or one never handed out before. -/
theorem issue_cases (r : RecordedClock) :
    (r.clock.current = some r.clock.issue.2 ∧ r.clock.issue.2 ∈ r.clock.held ∧
        r.clock.issue.1.issued = r.clock.issued) ∨
      (r.clock.issue.2.serial = r.clock.issued ∧
        r.clock.issue.1.issued = r.clock.issued + 1) := by
  unfold Clock.issue
  split
  · next p hp =>
    obtain ⟨hcurrent, hheld, -⟩ := Clock.reusable?_eq_some_iff.mp hp
    exact Or.inl ⟨hcurrent, hheld, rfl⟩
  · exact Or.inr ⟨rfl, rfl⟩

theorem Accounted.current_mem_handed (h : r.Accounted) {p : Pin}
    (hp : r.clock.current = some p) : p ∈ r.handed :=
  List.mem_of_getLast? (h.last_handed.trans hp)

theorem Accounted.issue (h : r.Accounted) : r.issue.Accounted := by
  have hnewest : r.issue.clock.newest = r.clock.complete := Clock.newest_issue r.clock
  have hgeneration := Clock.generation_issue r.clock
  have hcomplete := h.sound.complete_eq
  have hbit := Bool.toNat_le (r.clock.dirty && !r.clock.writing)
  have hmem : ∀ p, p ∈ r.issue.handed ↔ p ∈ r.handed ∨ p = r.clock.issue.2 := fun p ↦ by
    simp [RecordedClock.issue]
  refine ⟨h.sound.issue, ?_, ?_, ?_, ?_, ?_, ?_⟩
  · exact List.getLast?_concat.trans (Clock.current_issue r.clock).symm
  · intro p hp
    rcases (hmem p).mp hp with hold | rfl
    · have hle := h.handed_le p hold
      lia
    · lia
  · rw [RecordedClock.issue, List.map_append, List.pairwise_append]
    refine ⟨h.ascending, List.pairwise_singleton _ _, ?_⟩
    rintro _ hold _ hnew
    obtain ⟨p, hp, rfl⟩ := List.mem_map.mp hold
    have hle := h.handed_le p hp
    rw [List.mem_singleton.mp hnew]
    lia
  · intro generation hpos hle
    by_cases hold : generation ≤ r.clock.newest
    · obtain ⟨p, hp, heq⟩ := h.handed_out generation hpos hold
      exact ⟨p, (hmem p).mpr (Or.inl hp), heq⟩
    · exact ⟨_, (hmem _).mpr (Or.inr rfl), by lia⟩
  · intro p hp
    change p.serial < r.clock.issue.1.issued
    rcases issue_cases r with ⟨hcurrent, -, hissued⟩ | ⟨hserial, hissued⟩
    · rw [hissued]
      rcases (hmem p).mp hp with hold | rfl
      · exact h.serial_lt p hold
      · exact h.serial_lt _ (h.current_mem_handed hcurrent)
    · rw [hissued]
      rcases (hmem p).mp hp with hold | rfl
      · exact Nat.lt_succ_of_lt (h.serial_lt p hold)
      · exact hserial ▸ Nat.lt_succ_self _
  · intro hopen
    change r.begun.getLast? = some r.clock.issue.1.live
    rw [Clock.live_issue]
    exact h.last_begun ((Clock.writing_issue r.clock).symm.trans hopen)

theorem Accounted.step (h : r.Accounted) (hstep : Step r u) : u.Accounted := by
  cases hstep with
  | openSection _ => exact h.openSection
  | closeSection _ =>
    exact h.withClock h.sound.closeSection rfl rfl rfl (by simp [Clock.closeSection])
  | issue => exact h.issue
  | clone hheld => exact h.withClock (h.sound.clone hheld) rfl rfl rfl id
  | release _ => exact h.withClock (h.sound.release _) rfl rfl rfl id
  | advanceFloor => exact h.withClock h.sound.advanceFloor rfl rfl rfl id

theorem Accounted.steps (h : r.Accounted) (hsteps : Steps r u) : u.Accounted := by
  induction hsteps with
  | refl => exact h
  | tail _ hstep ih => exact ih.step hstep

theorem Reachable.accounted (hr : Reachable r) : r.Accounted := accounted_new.steps hr

/-- An issue hands out a held pin or one that no earlier issue has handed out. -/
theorem Accounted.issue_held_or_new (h : r.Accounted) :
    r.clock.issue.2 ∈ r.clock.held ∨ r.clock.issue.2 ∉ r.handed := by
  rcases issue_cases r with ⟨-, hheld, -⟩ | ⟨hserial, -⟩
  · exact Or.inl hheld
  · refine Or.inr fun hmem ↦ ?_
    have hlt := h.serial_lt _ hmem
    lia

/-! ### What the collector relies on -/

/-- No step makes the newest pin older. -/
theorem Accounted.newest_le_step (h : r.Accounted) (hstep : Step r u) :
    r.clock.newest ≤ u.clock.newest := by
  cases hstep with
  | openSection _ => exact (Clock.newest_openSection r.clock).ge
  | issue => exact h.sound.newest_le_issue
  | _ => exact Nat.le_refl _

theorem Accounted.newest_le_steps (h : r.Accounted) (hsteps : Steps r u) :
    r.clock.newest ≤ u.clock.newest := by
  induction hsteps with
  | refl => exact Nat.le_refl _
  | tail hbefore hstep ih => exact Nat.le_trans ih ((h.steps hbefore).newest_le_step hstep)

/-- What makes it safe to prune at the floor. -/
structure CollectorSafe (r : RecordedClock) : Prop where
  floor_le_live : r.clock.floor ≤ r.clock.live
  /-- The queued generations count up from the floor or from the one after it. -/
  consecutive : ∃ first, (first = r.clock.floor ∨ first = r.clock.floor + 1) ∧
    r.clock.queue.map Pin.generation = List.range' first r.clock.queue.length
  /-- At the back of the queue is the pin handed out last. -/
  back_eq_last : ∀ back, r.clock.queue.getLast? = some back → r.handed.getLast? = some back
  queued_once : ∀ p ∈ r.clock.held, r.clock.queue.count p = 1
  handed_out : ∀ generation, 1 ≤ generation → generation < r.clock.live →
    ∃ p ∈ r.handed, p.generation = generation
  floor_le_held : ∀ p ∈ r.clock.held, r.clock.floor ≤ p.generation
  floor_le_later : ∀ u, Steps r u → r.clock.floor ≤ u.clock.issue.2.generation

/-- In every state of a run the floor is at or below the live generation, the queue counts up from
the floor to the pin handed out last and holds every held pin once, every generation before the live
one has been handed out, and neither a held pin nor one handed out later shows a generation below
the floor. -/
theorem Reachable.collectorSafe (hr : Reachable r) : CollectorSafe r := by
  have h := hr.accounted
  have hfloor := h.sound.floor_le_newest
  have hnewest := h.sound.newest_le_live
  have hlength := h.sound.floor_add_length
  refine ⟨Nat.le_trans hfloor hnewest, ?_, ?_, ?_, ?_, ?_, ?_⟩
  · exact ⟨_, by lia, h.sound.queue_generations⟩
  · intro back hback
    exact h.last_handed.trans (h.sound.back_eq_current back hback)
  · intro p hp
    have hnodup : r.clock.queue.Nodup := h.sound.nodup_generations.of_map _
    exact List.count_eq_one_of_mem hnodup (h.sound.queued_of_held p hp)
  · intro generation hpos hlt
    have hlive := h.sound.live_eq
    have hbit := Bool.toNat_le r.clock.dirty
    exact h.handed_out generation hpos (by lia)
  · exact fun p hp ↦ h.sound.floor_le_of_mem_held hp
  · intro u hsteps
    have hlater := h.newest_le_steps hsteps
    have hcomplete := (h.steps hsteps).sound.complete_eq
    rw [Clock.generation_issue]
    lia

/-- A second section, ended while the pin of the first was held. -/
def secondEnded : RecordedClock :=
  ⟨Clock.new.openSection.closeSection.issue.1.openSection.closeSection, [⟨1, 0⟩], [1, 2]⟩

/-- A second pin handed out, the first one released and taken off the queue. -/
def firstReleased : RecordedClock :=
  { secondEnded.issue with
    clock := (secondEnded.issue.clock.release ⟨1, 0⟩).advanceFloor.1 }

theorem reachable_secondEnded : Reachable secondEnded :=
  .tail (.tail (.tail (.tail (.tail .refl (.openSection rfl)) (.closeSection rfl)) .issue)
    (.openSection rfl)) (.closeSection rfl)

theorem steps_firstReleased : Steps secondEnded.issue firstReleased :=
  .tail (.tail .refl (.release (show ⟨1, 0⟩ ∈ _ by decide))) .advanceFloor

/-- The floor has moved up to the first pin, and the second one stays queued above it. -/
theorem Reachable.collectorSafe_firstReleased :
    firstReleased.clock.floor = 1 ∧ firstReleased.clock.held = [⟨2, 1⟩] ∧
      CollectorSafe firstReleased := by
  have hr : Reachable firstReleased := (reachable_secondEnded.tail .issue).trans steps_firstReleased
  exact ⟨rfl, rfl, hr.collectorSafe⟩

/-! ### What holders rely on -/

/-- The sections begun are recorded for good. -/
theorem begun_prefix_step (hstep : Step r u) : r.begun <+: u.begun := by
  cases hstep with
  | openSection _ => exact List.prefix_append _ _
  | _ => exact List.prefix_refl _

theorem begun_prefix_steps (hsteps : Steps r u) : r.begun <+: u.begun := by
  induction hsteps with
  | refl => exact List.prefix_refl _
  | tail _ hstep ih => exact ih.trans (begun_prefix_step hstep)

/-- No section is open or has ended since the newest pin, which shows a given generation. -/
def Idle (r : RecordedClock) (generation : Generation) : Prop :=
  r.clock.writing = false ∧ r.clock.dirty = false ∧ r.clock.live = generation

theorem Idle.complete_eq {generation : Generation} (h : r.Idle generation) :
    r.clock.complete = generation :=
  (Clock.complete_of_closed h.1).trans h.2.2

/-- After an issue outside a section there is nothing left to show. -/
theorem Accounted.idle_issue (h : r.Accounted) (hclosed : r.clock.writing = false) :
    r.issue.Idle r.clock.issue.2.generation := by
  have hissue := h.issue.sound
  have hlive := Clock.complete_of_closed hclosed
  have hwriting : r.issue.clock.writing = false := (Clock.writing_issue r.clock).trans hclosed
  have hsame : r.issue.clock.live = r.issue.clock.newest := by
    rw [show r.issue.clock.newest = r.clock.complete from Clock.newest_issue r.clock, hlive]
    exact Clock.live_issue r.clock
  refine ⟨hwriting, ?_, ?_⟩
  · have hsum := hissue.live_eq
    rw [hsame] at hsum
    cases hdirty : r.issue.clock.dirty with
    | false => rfl
    | true =>
      rw [hdirty, Bool.toNat_true] at hsum
      lia
  · rw [Clock.generation_issue, hlive]
    exact Clock.live_issue r.clock

theorem Idle.step {generation : Generation} (h : r.Idle generation) (hstep : Step r u)
    (hbegun : u.begun = r.begun) : u.Idle generation := by
  obtain ⟨hwriting, hdirty, hlive⟩ := h
  cases hstep with
  | openSection _ => simp at hbegun
  | closeSection hopen => simp [hwriting] at hopen
  | issue =>
    refine ⟨(Clock.writing_issue _).trans hwriting, ?_, (Clock.live_issue _).trans hlive⟩
    unfold RecordedClock.issue Clock.issue
    split
    · exact hdirty
    · simp [hdirty]
  | _ => exact ⟨hwriting, hdirty, hlive⟩

theorem Idle.steps {generation : Generation} (h : r.Idle generation) (hsteps : Steps r u)
    (hbegun : u.begun = r.begun) : u.Idle generation := by
  induction hsteps with
  | refl => exact h
  | tail hbefore hstep ih =>
    have hlater := begun_prefix_step hstep
    rw [hbegun] at hlater
    have hmiddle := hlater.eq_of_length_le (begun_prefix_steps hbefore).length_le
    exact (ih hmiddle).step hstep (hbegun.trans hmiddle.symm)

/-- In what order pins are handed out, and when one is handed out again. -/
structure IssueDiscipline (r : RecordedClock) : Prop where
  /-- An open section has the live generation. -/
  openGeneration_eq : r.clock.writing = true → r.openGeneration? = some r.clock.live
  handed_lt_open : ∀ generation, r.openGeneration? = some generation →
    ∀ p ∈ r.handed, p.generation < generation
  /-- The generation before the live one exists whenever an issue asks for it. -/
  live_pos : (r.clock.writing && r.clock.dirty) = true → 1 ≤ r.clock.live
  ascending : (r.handed.map Pin.generation).Pairwise (· ≤ ·)
  eq_iff : ∀ p ∈ r.clock.held, ∀ q ∈ r.clock.held, p = q ↔ p.generation = q.generation
  /-- A pin is either a held one handed out again or a new one. -/
  held_or_new : r.clock.issue.2 ∈ r.clock.held ∨ r.clock.issue.2 ∉ r.handed
  /-- A pin handed out while no section is open is handed out again as long as it is held and no
  section has begun. -/
  reissued : r.clock.writing = false → ∀ u, Steps r.issue u → u.begun = r.begun →
    r.clock.issue.2 ∈ u.clock.held → u.clock.issue.2 = r.clock.issue.2

/-- In every state of a run the pins handed out so far are below the generation of an open section
and stand in the order of their generations, two held pins of one generation are the same pin, and
the pin handed out outside a section is handed out again until it is released or a section begins. -/
theorem Reachable.issueDiscipline (hr : Reachable r) : IssueDiscipline r := by
  have h := hr.accounted
  have hopenGeneration : r.clock.writing = true → r.openGeneration? = some r.clock.live := by
    intro hopen
    rw [openGeneration?, if_pos hopen, h.last_begun hopen]
  refine ⟨hopenGeneration, ?_, ?_, h.ascending, ?_, h.issue_held_or_new, ?_⟩
  · intro generation hgeneration p hp
    have hopen : r.clock.writing = true := by
      by_contra hclosed
      simp [openGeneration?, hclosed] at hgeneration
    have hlive := h.sound.live_eq_of_writing hopen
    have hle := h.handed_le p hp
    rw [hopenGeneration hopen] at hgeneration
    obtain rfl := Option.some.inj hgeneration
    lia
  · intro hflags
    have hlive := h.sound.live_eq_of_writing (Bool.and_eq_true_iff.mp hflags).1
    lia
  · intro p hp q hq
    refine ⟨fun heq ↦ congrArg Pin.generation heq, fun heq ↦ ?_⟩
    exact h.sound.eq_of_generation_eq (h.sound.queued_of_held p hp)
      (h.sound.queued_of_held q hq) heq
  · intro hclosed u hsteps hbegun hheld
    have hidle : u.Idle r.clock.issue.2.generation :=
      (h.idle_issue hclosed).steps hsteps hbegun
    have hlater := (h.issue.steps hsteps).issue.sound
    have hgeneration : u.clock.issue.2.generation = r.clock.issue.2.generation :=
      (Clock.generation_issue u.clock).trans hidle.complete_eq
    -- both are held after the issue, and one generation has one held pin
    exact hlater.eq_of_generation_eq (hlater.queued_of_held _ (Clock.issue_mem_held u.clock))
      (hlater.queued_of_held _ (Clock.mem_held_issue hheld)) hgeneration

/-- One pin, handed out before and during the second section, which is still open. -/
def pinnedTwice : RecordedClock :=
  let c := Clock.new.openSection.closeSection.issue.1
  ⟨c.openSection.issue.1, [⟨1, 0⟩, ⟨1, 0⟩], [1, 2]⟩

theorem reachable_pinnedTwice : Reachable pinnedTwice :=
  .tail (.tail (.tail (.tail (.tail .refl (.openSection rfl)) (.closeSection rfl)) .issue)
    (.openSection rfl)) .issue

/-- In the open section of generation two every pin handed out shows generation one; and the pin
handed out after the second section is handed out again once the first is gone. -/
theorem Reachable.issueDiscipline_pinnedTwice :
    pinnedTwice.openGeneration? = some 2 ∧ (∀ p ∈ pinnedTwice.handed, p.generation < 2) ∧
      firstReleased.clock.issue.2 = secondEnded.clock.issue.2 :=
  ⟨rfl, reachable_pinnedTwice.issueDiscipline.handed_lt_open 2 rfl,
    reachable_secondEnded.issueDiscipline.reissued rfl firstReleased steps_firstReleased rfl
      (by decide)⟩

end RecordedClock

end VersionedContent
