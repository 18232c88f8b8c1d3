import Mathlib.Data.List.TakeWhile
import VersionedContent.VersionMap

/-!
# Values replaced throughout a table

A table of versions may have every value replaced by what a function makes of it. Generations and
deletions stay, so whatever a table does next it does as before: writing, clearing and pruning
commute with the replacement, and a collection pass counts the same.
-/

set_option autoImplicit false

namespace VersionedContent

variable {α β : Type}

/-- The version with its value replaced. A deletion stays one. -/
def Version.map (f : α → β) (v : Version α) : Version β := ⟨v.generation, v.value.map f⟩

namespace Chain

/-- The chain with every value replaced. -/
def map (f : α → β) (c : Chain α) : Chain β := ⟨c.head.map f, c.older.map (·.map f)⟩

variable (f : α → β) (c : Chain α)

theorem versions_map : (c.map f).versions = c.versions.map (·.map f) := rfl

theorem get?_map (generation : Generation) :
    (c.map f).get? generation = (c.get? generation).map f := by
  unfold get? visible?
  rw [versions_map, List.find?_map, Option.bind_map, Option.map_bind]
  rfl

theorem live?_map : (c.map f).live? = c.live?.map f := rfl

theorem written_map (live : Generation) (value : Option α) :
    (c.map f).written live (value.map f) = (c.written live value).map f := by
  unfold written write?
  rw [show (c.map f).head.generation = c.head.generation from rfl]
  split_ifs <;> rfl

theorem isStandaloneAbsent_map : (c.map f).isStandaloneAbsent = c.isStandaloneAbsent := by
  simp [isStandaloneAbsent, map, Version.map]

theorem cleared?_map (live : Generation) :
    (c.map f).cleared? live = (c.cleared? live).map (·.map f) := by
  unfold cleared?
  rw [live?_map, Option.isNone_map, ← Option.map_none (f := f), written_map, isStandaloneAbsent_map]
  split_ifs <;> rfl

theorem above_map (floor : Generation) :
    (c.map f).above floor = (c.above floor).map (·.map f) := by
  unfold above
  rw [versions_map, List.takeWhile_map]
  rfl

theorem below_map (floor : Generation) :
    (c.map f).below floor = (c.below floor).map (·.map f) := by
  unfold below
  rw [versions_map, List.dropWhile_map]
  rfl

theorem pruned_map (floor : Generation) : (c.map f).pruned floor = (c.pruned floor).map f := by
  unfold pruned
  rw [above_map, below_map, ← List.map_take, ← List.map_append]
  cases c.above floor ++ (c.below floor).take 1 <;> rfl

theorem isDead_map (floor : Generation) : (c.map f).isDead floor = c.isDead floor := by
  unfold isDead
  rw [isStandaloneAbsent_map]
  rfl

theorem tally_map (floor : Generation) : (c.map f).tally floor = c.tally floor := by
  unfold tally
  rw [above_map, below_map, pruned_map, isDead_map]
  simp

end Chain

namespace VersionMap

variable {κ : Type} [Ord κ] [Std.TransOrd κ]

/-- The table with every value replaced. -/
def map (f : α → β) (m : VersionMap κ α) : VersionMap κ β := ⟨m.chains.map fun _ c ↦ c.map f⟩

variable (f : α → β) (m : VersionMap κ α)

theorem size_map : (m.map f).size = m.size := Std.ExtTreeMap.size_map

theorem tally_map (floor : Generation) : (m.map f).tally floor = m.tally floor := by
  unfold tally map
  rw [Std.ExtTreeMap.foldl_eq_foldl_toList, Std.ExtTreeMap.foldl_eq_foldl_toList,
    Std.ExtTreeMap.toList_map, List.foldl_map]
  simp only [Chain.tally_map]

variable [Std.LawfulEqOrd κ]

theorem ext_chains {m n : VersionMap κ α} (h : ∀ key : κ, m.chains[key]? = n.chains[key]?) :
    m = n := by
  cases m
  cases n
  exact congrArg mk (Std.ExtTreeMap.ext_getElem? h)

theorem chains_map (key : κ) : (m.map f).chains[key]? = m.chains[key]?.map (·.map f) :=
  Std.ExtTreeMap.getElem?_map

theorem live?_map (key : κ) : (m.map f).live? key = (m.live? key).map f := by
  unfold live?
  rw [chains_map, Option.bind_map, Option.map_bind]
  rfl

theorem set_map (live : Generation) (key : κ) (value : α) :
    (m.map f).set live key (f value) = (m.set live key value).map f := by
  refine ext_chains fun x ↦ ?_
  simp only [chains_map, set, Std.ExtTreeMap.getElem?_alter]
  split_ifs
  · cases m.chains[key]? with
    | none => rfl
    | some c => exact congrArg some (c.written_map f live (some value))
  · rfl

theorem clear_map (live : Generation) (key : κ) :
    (m.map f).clear live key = (m.clear live key).map f := by
  refine ext_chains fun x ↦ ?_
  simp only [chains_map, clear, Std.ExtTreeMap.getElem?_alter]
  split_ifs
  · cases m.chains[key]? with
    | none => rfl
    | some c => exact c.cleared?_map f live
  · rfl

theorem clearAll_map (live : Generation) : (m.map f).clearAll live = (m.clearAll live).map f := by
  refine ext_chains fun x ↦ ?_
  simp only [chains_map, clearAll, Std.ExtTreeMap.getElem?_filterMap']
  cases m.chains[x]? with
  | none => rfl
  | some c => exact c.cleared?_map f live

theorem prune_map (floor : Generation) : (m.map f).prune floor = (m.prune floor).map f := by
  refine ext_chains fun x ↦ ?_
  simp only [chains_map, prune, Std.ExtTreeMap.getElem?_filterMap']
  cases m.chains[x]? with
  | none => rfl
  | some c =>
    simp only [Option.map_some, Option.bind_some, Chain.pruned_map, Chain.isDead_map]
    split_ifs <;> rfl

theorem viewAt_map (generation : Generation) :
    (m.map f).viewAt generation = (m.viewAt generation).map fun _ ↦ f := by
  refine Std.ExtTreeMap.ext_getElem? fun key ↦ ?_
  simp only [viewAt, Std.ExtTreeMap.getElem?_filterMap', Std.ExtTreeMap.getElem?_map, chains_map]
  cases m.chains[key]? with
  | none => rfl
  | some c => exact c.get?_map f generation

end VersionMap

end VersionedContent
