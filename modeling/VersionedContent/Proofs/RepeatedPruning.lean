import Mathlib.Data.List.TakeWhile
import VersionedContent.Proofs.VersionReads

/-!
# Pruning at one floor after another

Pruning walks along a chain from the newest version on and ends with the first one at or below the
floor (`Chain.versions_pruned_eq_keptBy`), counting on its way (`Chain.tally_eq_countWalk`). Two
walks in a row keep what the walk to the higher floor keeps, in whatever order they are made, so a
pass that is repeated or comes too late does no harm (`Chain.prunes_once`). What a generation below
the floor saw is either still there, or has been overtaken by a newer version at or below the floor
and is gone.
-/

set_option autoImplicit false

namespace VersionedContent.Chain

variable {α : Type} {c d : Chain α} {floor generation : Generation} {v : Version α}

/-! ### What pruning keeps -/

/-- A version is above the floor or the newest of those at or below it. -/
def Retains (c : Chain α) (floor : Generation) (v : Version α) : Prop :=
  floor < v.generation ∨ ∀ w ∈ c.versions, w.generation ≤ floor → w.generation ≤ v.generation

instance (c : Chain α) (floor : Generation) : DecidablePred (c.Retains floor) :=
  fun _ ↦ inferInstanceAs (Decidable (_ ∨ _))

theorem eq_of_versions_eq (h : c.versions = d.versions) : c = d := by
  obtain ⟨hhead, holder⟩ := List.cons.inj h
  calc c = ⟨c.head, c.older⟩ := rfl
    _ = ⟨d.head, d.older⟩ := by rw [hhead, holder]
    _ = d := rfl

theorem lt_of_mem_above (hv : v ∈ c.above floor) : floor < v.generation := by
  simpa using List.mem_takeWhile_imp hv

theorem decreasing_below (h : c.generations.Pairwise (· > ·)) (floor : Generation) :
    (c.below floor).Pairwise fun v w ↦ v.generation > w.generation :=
  (List.pairwise_map.mp h).sublist (List.dropWhile_sublist _)

theorem le_of_mem_below (h : c.generations.Pairwise (· > ·)) (hv : v ∈ c.below floor) :
    v.generation ≤ floor := by
  have hdecreasing := decreasing_below h floor
  cases hbelow : c.below floor with
  | nil =>
    rw [hbelow] at hv
    exact absurd hv List.not_mem_nil
  | cons first rest =>
    have hfirst := generation_head_below hbelow
    rw [hbelow] at hv hdecreasing
    rcases List.mem_cons.mp hv with rfl | hrest
    · exact hfirst
    · exact Nat.le_trans (Nat.le_of_lt ((List.pairwise_cons.mp hdecreasing).1 v hrest)) hfirst

theorem filter_above (c : Chain α) (floor : Generation) :
    (c.above floor).filter (c.Retains floor ·) = c.above floor :=
  List.filter_eq_self.mpr fun _ hv ↦ decide_eq_true (Or.inl (lt_of_mem_above hv))

/-- In a chain in order, the first version at or below the floor is the newest of these. -/
theorem filter_below (h : c.generations.Pairwise (· > ·)) (floor : Generation) :
    (c.below floor).filter (c.Retains floor ·) = (c.below floor).take 1 := by
  have hdecreasing := decreasing_below h floor
  have hbelow : ∀ v ∈ c.below floor, v.generation ≤ floor := fun _ ↦ le_of_mem_below h
  have hall := above_append_below c floor
  cases hversions : c.below floor with
  | nil => rfl
  | cons first rest =>
    rw [hversions] at hdecreasing hbelow hall
    have holder := (List.pairwise_cons.mp hdecreasing).1
    have hfirst : c.Retains floor first := by
      refine Or.inr fun w hw hle ↦ ?_
      rw [← hall, List.mem_append, List.mem_cons] at hw
      rcases hw with hw | rfl | hw
      · exact absurd hle (Nat.not_le_of_lt (lt_of_mem_above hw))
      · exact Nat.le_refl _
      · exact Nat.le_of_lt (holder w hw)
    have hrest : rest.filter (c.Retains floor ·) = [] := by
      refine List.filter_eq_nil_iff.mpr fun w hw hretains ↦ ?_
      rcases of_decide_eq_true hretains with habove | hnewest
      · exact Nat.not_le_of_lt habove (hbelow w (List.mem_cons_of_mem _ hw))
      · have hle := hnewest first (hall ▸ List.mem_append_right _ List.mem_cons_self)
          (hbelow first List.mem_cons_self)
        exact Nat.not_le_of_lt (holder w hw) hle
    rw [List.filter_cons, if_pos (decide_eq_true hfirst), hrest]
    rfl

/-- Pruning a chain in order keeps the versions above the floor and the newest one at or below
it. -/
theorem versions_pruned_eq_filter (h : c.generations.Pairwise (· > ·)) :
    (c.pruned floor).versions = c.versions.filter (c.Retains floor ·) := by
  rw [versions_pruned, ← above_append_below c floor, List.filter_append, filter_above,
    filter_below h]

/-! ### The walk of a pruning -/

/-- The versions that a walk from the newest one on meets, which ends with the first one at or below
a floor. -/
def keptBy (floor : Generation) : List (Version α) → List (Version α)
  | [] => []
  | v :: older => if v.generation ≤ floor then [v] else v :: keptBy floor older

/-- The counters of such a walk, which goes on from a number of versions examined: one more for
every version that it meets, and the versions that it unlinks one after another behind the last of
these. -/
def countWalk (floor : Generation) (examined : Nat) : List (Version α) → Nat × Nat
  | [] => (examined, 0)
  | v :: older =>
    if v.generation ≤ floor then (examined + 1, older.foldl (fun unlinked _ ↦ unlinked + 1) 0)
    else countWalk floor (examined + 1) older

theorem versions_pruned_eq_keptBy (c : Chain α) (floor : Generation) :
    (c.pruned floor).versions = keptBy floor c.versions := by
  rw [versions_pruned, above, below]
  induction c.versions with
  | nil => rfl
  | cons v older ih =>
    by_cases hv : v.generation ≤ floor
    · simp [keptBy, hv, Nat.not_lt.mpr hv]
    · simp [keptBy, hv, Nat.not_le.mp hv, ih]

/-- The walk counts the versions it keeps as examined and all others as unlinked. -/
theorem countWalk_eq (floor : Generation) (examined : Nat) (versions : List (Version α)) :
    (countWalk floor examined versions).1 = examined + (keptBy floor versions).length ∧
      (keptBy floor versions).length + (countWalk floor examined versions).2 =
        versions.length := by
  induction versions generalizing examined with
  | nil => exact ⟨rfl, rfl⟩
  | cons v older ih =>
    rw [countWalk, keptBy]
    split_ifs with hv
    · refine ⟨rfl, ?_⟩
      rw [List.foldl_add_const, List.length_singleton, List.length_cons]
      lia
    · obtain ⟨hexamined, hunlinked⟩ := ih (examined + 1)
      rw [List.length_cons, List.length_cons]
      lia

/-- Pruning a chain counts what its walk counts, and its key when the walk leaves only a deletion at
or below the floor. -/
theorem tally_eq_countWalk (c : Chain α) (floor : Generation) :
    c.tally floor =
      { examined := (countWalk floor 0 c.versions).1
        pruned := (countWalk floor 0 c.versions).2
        removed :=
          if c.head.generation ≤ floor ∧ c.head.value.isNone ∧
            (keptBy floor c.versions).length = 1 then 1 else 0 } := by
  obtain ⟨hexamined, hunlinked⟩ := countWalk_eq floor 0 c.versions
  have hkept := congrArg List.length (c.versions_pruned_eq_keptBy floor)
  have hall := congrArg List.length (c.above_append_below floor)
  have hdead : (c.pruned floor).isDead floor = true ↔ c.head.generation ≤ floor ∧
      c.head.value.isNone ∧ (keptBy floor c.versions).length = 1 := by
    rw [← hkept, versions, isDead, isStandaloneAbsent, head_pruned]
    simp
  rw [versions_pruned, List.length_append, List.length_take] at hkept
  rw [List.length_append] at hall
  rw [tally, PruneTally.mk.injEq, List.length_take, List.length_drop]
  exact ⟨by lia, by lia, if_congr hdead rfl rfl⟩

/-- Pruning counts the versions that it drops. -/
theorem length_pruned (c : Chain α) (floor : Generation) :
    (c.pruned floor).versions.length + (c.tally floor).pruned = c.versions.length := by
  rw [versions_pruned_eq_keptBy, tally_eq_countWalk]
  exact (countWalk_eq floor 0 c.versions).2

/-! ### Two floors -/

/-- A second walk stops where the first one stopped, or before. -/
theorem keptBy_keptBy (first second : Generation) (versions : List (Version α)) :
    keptBy second (keptBy first versions) = keptBy (max first second) versions := by
  induction versions with
  | nil => rfl
  | cons v older ih =>
    by_cases hfirst : v.generation ≤ first
    · have hmax : v.generation ≤ max first second := Nat.le_trans hfirst (Nat.le_max_left _ _)
      by_cases hsecond : v.generation ≤ second <;> simp [keptBy, hfirst, hsecond, hmax]
    · by_cases hsecond : v.generation ≤ second
      · have hmax : v.generation ≤ max first second :=
          Nat.le_trans hsecond (Nat.le_max_right _ _)
        simp [keptBy, hfirst, hsecond, hmax]
      · have hmax : ¬v.generation ≤ max first second := by lia
        simp [keptBy, hfirst, hsecond, hmax, ih]

theorem pruned_pruned (c : Chain α) (first second : Generation) :
    (c.pruned first).pruned second = c.pruned (max first second) := by
  refine eq_of_versions_eq ?_
  rw [versions_pruned_eq_keptBy, versions_pruned_eq_keptBy, versions_pruned_eq_keptBy,
    keptBy_keptBy]

/-- Two prunings in a row drop as many versions as the one at the higher floor. -/
theorem tally_pruned_add (c : Chain α) (first second : Generation) :
    (c.tally first).pruned + ((c.pruned first).tally second).pruned =
      (c.tally (max first second)).pruned := by
  have hfirst := c.length_pruned first
  have hsecond := (c.pruned first).length_pruned second
  have hboth := c.length_pruned (max first second)
  rw [pruned_pruned] at hsecond
  lia

/-! ### Reads below the floor -/

/-- What a generation saw has been overtaken: there is a version newer than the generation, but none
too new for the floor. -/
def Overtaken (c : Chain α) (floor generation : Generation) : Prop :=
  ∃ v ∈ c.versions, generation < v.generation ∧ v.generation ≤ floor

instance (c : Chain α) (floor generation : Generation) : Decidable (c.Overtaken floor generation) :=
  inferInstanceAs (Decidable (∃ v ∈ c.versions, generation < v.generation ∧ v.generation ≤ floor))

/-- A walk to a floor leaves a generation the version that it saw, unless the walk ends before. -/
theorem find?_keptBy (floor generation : Generation) {versions : List (Version α)}
    (h : versions.Pairwise fun v w ↦ v.generation > w.generation) :
    (keptBy floor versions).find? (fun v ↦ decide (v.generation ≤ generation)) =
      if ∃ v ∈ versions, generation < v.generation ∧ v.generation ≤ floor then none
      else versions.find? fun v ↦ decide (v.generation ≤ generation) := by
  induction versions with
  | nil => simp [keptBy]
  | cons v older ih =>
    obtain ⟨hnewest, holder⟩ := List.pairwise_cons.mp h
    by_cases hseen : v.generation ≤ generation
    · -- nothing older can have overtaken the newest version
      have hnot : ¬∃ w ∈ v :: older, generation < w.generation ∧ w.generation ≤ floor := by
        rintro ⟨w, hw, hlt, -⟩
        rcases List.mem_cons.mp hw with rfl | hw
        · exact Nat.not_lt.mpr hseen hlt
        · exact Nat.lt_asymm hlt (Nat.lt_of_lt_of_le (hnewest w hw) hseen)
      rw [if_neg hnot, keptBy]
      split_ifs <;> simp [hseen]
    · have hlt : generation < v.generation := Nat.not_le.mp hseen
      by_cases hreached : v.generation ≤ floor
      · have hover : ∃ w ∈ v :: older, generation < w.generation ∧ w.generation ≤ floor :=
          ⟨v, List.mem_cons_self, hlt, hreached⟩
        rw [if_pos hover, keptBy, if_pos hreached]
        simp [hseen]
      · simp [keptBy, hreached, hseen, ih holder]

/-- Pruning a chain in order hides from a generation only what has been overtaken. -/
theorem get?_pruned_eq (h : c.generations.Pairwise (· > ·)) :
    (c.pruned floor).get? generation =
      if c.Overtaken floor generation then none else c.get? generation := by
  have hkept : (c.pruned floor).visible? generation =
      (keptBy floor c.versions).find? fun v ↦ decide (v.generation ≤ generation) := by
    rw [visible?, versions_pruned_eq_keptBy]
  have hreads := find?_keptBy floor generation (List.pairwise_map.mp h)
  by_cases hover : c.Overtaken floor generation
  · rw [if_pos hover, get?, hkept, hreads.trans (if_pos hover), Option.bind_none]
  · rw [if_neg hover, get?, hkept, hreads.trans (if_neg hover), get?, visible?]

/-- Pruning a chain whose generations fall from the newest version on. Pruning at two floors one
after the other, in either order, leaves the versions that pruning at the higher one leaves, and the
counts of versions dropped add up to its count. Pruning once keeps the versions above the floor and
the newest one of the others, and counts all that it drops; a generation at or above the floor sees
what it saw before, and one below it sees that too, or nothing if it has been overtaken. -/
theorem prunes_once (h : c.generations.Pairwise (· > ·)) :
    (∀ first second : Generation,
      ((c.pruned first).pruned second).versions = (c.pruned (max first second)).versions ∧
      ((c.pruned first).pruned second).versions = ((c.pruned second).pruned first).versions ∧
      (c.tally first).pruned + ((c.pruned first).tally second).pruned =
        (c.tally (max first second)).pruned) ∧
    ∀ floor : Generation,
      (c.pruned floor).versions = c.versions.filter (c.Retains floor ·) ∧
      (c.pruned floor).versions.length + (c.tally floor).pruned = c.versions.length ∧
      ∀ generation, (floor ≤ generation → (c.pruned floor).get? generation = c.get? generation) ∧
        (generation < floor → (c.pruned floor).get? generation =
          if c.Overtaken floor generation then none else c.get? generation) := by
  constructor
  · intro first second
    refine ⟨congrArg versions (c.pruned_pruned first second), ?_, c.tally_pruned_add first second⟩
    rw [pruned_pruned, pruned_pruned, Nat.max_comm]
  · intro floor
    refine ⟨versions_pruned_eq_filter h, c.length_pruned floor, fun generation ↦ ⟨?_, ?_⟩⟩
    · exact get?_pruned
    · exact fun _ ↦ get?_pruned_eq h

/-- A key that was written three times, removed, and written again later on. -/
def rewritten : Chain Nat := ⟨⟨6, some 60⟩, [⟨4, none⟩, ⟨3, some 30⟩, ⟨1, some 10⟩]⟩

/-- Pruning at 3 drops one version, pruning at 5 after that another one, and pruning at 3 after that
none. Generation 3 sees its value after the first pruning and nothing after the second. -/
theorem prunes_once_rewritten :
    rewritten.generations.Pairwise (· > ·) ∧
      (rewritten.pruned 3).generations = [6, 4, 3] ∧ (rewritten.pruned 5).generations = [6, 4] ∧
      ((rewritten.pruned 3).pruned 5).versions = (rewritten.pruned 5).versions ∧
      ((rewritten.pruned 5).pruned 3).versions = (rewritten.pruned 5).versions ∧
      (rewritten.tally 3).pruned + ((rewritten.pruned 3).tally 5).pruned = 2 ∧
      (rewritten.pruned 3).get? 3 = some 30 ∧ (rewritten.pruned 5).get? 3 = none := by
  have hfall : rewritten.generations.Pairwise (· > ·) := by decide
  obtain ⟨hfloors, hfloor⟩ := prunes_once hfall
  obtain ⟨hrising, hfalling, hcounts⟩ := hfloors 3 5
  have hsame : (rewritten.pruned 3).get? 3 = rewritten.get? 3 :=
    ((hfloor 3).2.2 3).1 (Nat.le_refl 3)
  have hgone := ((hfloor 5).2.2 3).2 (by decide)
  have hovertaken : rewritten.Overtaken 5 3 := by decide
  rw [if_pos hovertaken] at hgone
  exact ⟨hfall, by decide, by decide, hrising, hfalling.symm.trans hrising,
    hcounts.trans (by decide), hsame.trans (by decide), hgone⟩

end VersionedContent.Chain
