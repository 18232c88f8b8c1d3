import Mathlib.Algebra.Order.BigOperators.Group.Finset
import VersionedContent.Dump
import VersionedContent.Synthetic

/-!
# Kits of generated trees

The nodes of a generated tree are counted before the first of them is made, level by level and as
far as there is room (`SyntheticTree.nodeCount_eq_addLevels`). So the count is exact below the
greatest number (`SyntheticTree.nodeCount_eq`), and a shape is refused as too large exactly if it
has too many nodes (`SyntheticTree.exists_dump_eq_error_iff`).

Kits are made level by level. What is there after some levels is `SyntheticTree.Rows`: numbers
without a gap, every kit after its parent, and the right number of children under each kit but those
of the last level. One more level keeps this (`SyntheticTree.Rows.below`), hence any number of
levels does (`SyntheticTree.Rows.levels`), and all of them together make the list
(`SyntheticTree.enumerates_of_dump`). Numbers and levels stay in range all the way: there are never
more kits than are counted, nor more levels than the shape has.
-/

set_option autoImplicit false

namespace VersionedContent

namespace ContentKit

/-- A kit at the top: it names no parent and is at the first level. -/
structure StandsAtTop (k : ContentKit) : Prop where
  parentId_eq : k.parentId = none
  level_eq : k.level.toNat = 1
  path_eq : k.path = rootPath k.id

/-- A kit under another one: it names it as its parent, its level is the next one, not only up to
overflow, and its path goes on from there. -/
structure StandsUnder (k q : ContentKit) : Prop where
  parentId_eq : k.parentId = some q.id
  level_eq : k.level.toNat = q.level.toNat + 1
  path_eq : k.path = s!"{q.path},{k.id}"

/-- Every kit of a list stands at the top or under one before it. -/
def ParentsFirst (ks : List ContentKit) : Prop :=
  ∀ done k rest, ks = done ++ k :: rest → k.StandsAtTop ∨ ∃ q ∈ done, k.StandsUnder q

/-- The numbers of some kits. -/
def numbers (ks : List ContentKit) : List Nat := ks.map (·.id.val.toNat)

/-- How many kits name a node as their parent, or name none. -/
def countUnder (ks : List ContentKit) (parent : Option ContentId) : Nat :=
  (ks.map parentId).count parent

variable {ks first second : List ContentKit} {k q : ContentKit} {p : ContentId}

theorem numbers_eq_map_map (ks : List ContentKit) :
    numbers ks = (ks.map ContentKit.id).map (·.val.toNat) := by
  rw [List.map_map]
  rfl

theorem numbers_append (first second : List ContentKit) :
    numbers (first ++ second) = numbers first ++ numbers second :=
  List.map_append

theorem nodup_ids_of_numbers (h : numbers ks = List.range' 1 ks.length) :
    (ks.map ContentKit.id).Nodup := by
  have hnodup : (numbers ks).Nodup := h ▸ List.nodup_range'
  rw [numbers_eq_map_map] at hnodup
  exact hnodup.of_map _

theorem countUnder_append (first second : List ContentKit) (parent : Option ContentId) :
    countUnder (first ++ second) parent = countUnder first parent + countUnder second parent := by
  rw [countUnder, List.map_append, List.count_append]
  rfl

theorem ParentsFirst.append (hfirst : ParentsFirst first)
    (hsecond : ∀ k ∈ second, ∃ q ∈ first, k.StandsUnder q) : ParentsFirst (first ++ second) := by
  intro done k rest hsplit
  have hlater : ∀ more, done = first ++ more → second = more ++ k :: rest →
      ∃ q ∈ done, k.StandsUnder q := by
    rintro more rfl rfl
    obtain ⟨q, hq, hunder⟩ := hsecond k List.mem_append_cons_self
    exact ⟨q, List.mem_append_left _ hq, hunder⟩
  -- the list is split behind the first part, inside it, or just where it ends
  obtain ⟨more, hdone, hrest⟩ | ⟨more, rfl, hrest⟩ := List.append_eq_append_iff.mp hsplit
  · exact Or.inr (hlater more hdone hrest)
  · cases more with
    | nil => exact Or.inr (hlater [] (by simp) hrest.symm)
    | cons d more =>
      obtain rfl := (List.cons.inj hrest).1
      exact hfirst done k more rfl

theorem ParentsFirst.standsAtTop_or (h : ParentsFirst ks) (hk : k ∈ ks) :
    k.StandsAtTop ∨ ∃ q ∈ ks, k.StandsUnder q := by
  obtain ⟨done, rest, rfl⟩ := List.append_of_mem hk
  refine (h done k rest rfl).imp_right ?_
  rintro ⟨q, hq, hunder⟩
  exact ⟨q, List.mem_append_left _ hq, hunder⟩

theorem ParentsFirst.exists_of_parentId_eq (h : ParentsFirst ks) (hk : k ∈ ks)
    (hparent : k.parentId = some p) : ∃ q ∈ ks, q.id = p ∧ k.StandsUnder q := by
  obtain htop | ⟨q, hq, hunder⟩ := h.standsAtTop_or hk
  · rw [htop.parentId_eq] at hparent
    contradiction
  · exact ⟨q, hq, Option.some.inj (hunder.parentId_eq.symm.trans hparent), hunder⟩

/-- Nothing stands under an id that no kit has. -/
theorem ParentsFirst.countUnder_eq_zero (h : ParentsFirst ks)
    (hnot : p ∉ ks.map ContentKit.id) : countUnder ks (some p) = 0 := by
  refine List.count_eq_zero_of_not_mem fun hmem ↦ hnot ?_
  obtain ⟨k, hk, hparent⟩ := List.mem_map.mp hmem
  obtain ⟨q, hq, rfl, -⟩ := h.exists_of_parentId_eq hk hparent
  exact List.mem_map_of_mem hq

end ContentKit

open ContentKit

namespace SyntheticTree

variable {t : SyntheticTree} {mint : Mint} {leaf : Bool} {fanout depth height next : Nat}
variable {above row : List ContentKit} {k q : ContentKit}

/-! ### Counting -/

/-- How many nodes a shape has in its first levels. -/
def countTo (t : SyntheticTree) (depth : Nat) : Nat :=
  ∑ i ∈ Finset.range depth, t.roots.toNat * t.fanout.toNat ^ i

theorem countTo_succ (t : SyntheticTree) (depth : Nat) :
    t.countTo (depth + 1) = t.countTo depth + t.roots.toNat * t.fanout.toNat ^ depth :=
  Finset.sum_range_succ _ _

theorem countTo_mono (t : SyntheticTree) {depth other : Nat} (hle : depth ≤ other) :
    t.countTo depth ≤ t.countTo other :=
  Finset.sum_le_sum_of_subset (Finset.range_mono hle)

theorem min_maxCount_mul (level fanout : Nat) :
    min maxCount (min maxCount level * fanout) = min maxCount (level * fanout) := by
  rcases Nat.le_total level maxCount with hle | hle
  · rw [Nat.min_eq_right hle]
  · rcases Nat.eq_zero_or_pos fanout with rfl | hpos
    · simp
    · have hfull := Nat.le_mul_of_pos_right maxCount hpos
      have hmore := Nat.le_mul_of_pos_right level hpos
      lia

/-- Adds up levels, each `fanout` times as large as the one before, round by round and to the end. A
sum or a product that there is no room for becomes the greatest number. -/
def addLevels (fanout : Nat) : Nat → Nat → Nat → Nat
  | 0, _, total => total
  | depth + 1, level, total =>
    addLevels fanout depth (min maxCount (level * fanout)) (min maxCount (total + level))

/-- Levels are added up as they are, but for the greatest number. -/
theorem addLevels_eq (fanout depth level total : Nat) :
    addLevels fanout depth (min maxCount level) (min maxCount total) =
      min maxCount (total + ∑ i ∈ Finset.range depth, level * fanout ^ i) := by
  induction depth generalizing level total with
  | zero => simp [addLevels]
  | succ depth ih =>
    have hsum : ∑ i ∈ Finset.range (depth + 1), level * fanout ^ i =
        level + ∑ i ∈ Finset.range depth, level * fanout * fanout ^ i := by
      rw [Finset.sum_range_succ', pow_zero, mul_one, add_comm]
      congr 1
      exact Finset.sum_congr rfl fun i _ ↦ by rw [pow_succ', mul_assoc]
    have hadd : min maxCount (min maxCount total + min maxCount level) =
        min maxCount (total + level) := by lia
    rw [addLevels, min_maxCount_mul, hadd, ih, hsum, Nat.add_assoc]

/-- Empty levels add nothing, and nothing can be added to the greatest number. -/
theorem addLevels_of_stop {level total : Nat} (hle : total ≤ maxCount)
    (hstop : level = 0 ∨ maxCount ≤ total) (fanout depth : Nat) :
    addLevels fanout depth level total = total := by
  induction depth generalizing level total with
  | zero => rfl
  | succ depth ih =>
    have hsame : min maxCount (total + level) = total := by lia
    rw [addLevels, hsame]
    refine ih hle (hstop.imp_left ?_)
    rintro rfl
    rw [Nat.zero_mul, Nat.min_zero]

theorem countLevels_eq_addLevels (fanout depth level : Nat) {total : Nat}
    (hle : total ≤ maxCount) :
    countLevels fanout depth level total = addLevels fanout depth level total := by
  induction depth generalizing level total with
  | zero => rfl
  | succ depth ih =>
    rw [countLevels]
    split_ifs with hstop
    · exact (addLevels_of_stop hle hstop fanout (depth + 1)).symm
    · exact ih _ (Nat.min_le_left _ _)

theorem addLevels_eq_countTo (t : SyntheticTree) :
    addLevels t.fanout.toNat t.depth.toNat t.roots.toNat 0 =
      min maxCount (t.countTo t.depth.toNat) := by
  have hroots : min maxCount t.roots.toNat = t.roots.toNat :=
    Nat.min_eq_right (Nat.le_trans t.roots.toNat_lt.le (by decide))
  have hcount := addLevels_eq t.fanout.toNat t.depth.toNat t.roots.toNat 0
  rwa [hroots, Nat.min_zero, Nat.zero_add] at hcount

/-- Neither the early end of counting nor the shortcut for levels of equal size changes a count. -/
theorem nodeCount_eq_addLevels (t : SyntheticTree) :
    t.nodeCount = addLevels t.fanout.toNat t.depth.toNat t.roots.toNat 0 := by
  unfold nodeCount
  split_ifs with hfanout
  · rw [addLevels_eq_countTo, countTo]
    simp [hfanout, Nat.mul_comm]
  · exact countLevels_eq_addLevels _ _ _ (Nat.zero_le _)

theorem nodeCount_eq (t : SyntheticTree) :
    t.nodeCount = min maxCount (t.countTo t.depth.toNat) :=
  t.nodeCount_eq_addLevels.trans t.addLevels_eq_countTo

/-- A shape whose nodes cannot all be counted. -/
example : nodeCount ⟨4294967295, 4294967295, 3⟩ = 2 ^ 64 - 1 := by decide

/-- A shape is refused exactly if it has no nodes at the top, no levels or too many nodes. -/
theorem exists_dump_eq_error_iff (t : SyntheticTree) (mint : Mint) :
    (∃ misuse, t.dump mint = .error misuse) ↔
      t.roots = 0 ∨ t.depth = 0 ∨ maxNodes < t.countTo t.depth.toNat := by
  have hmax : maxNodes < maxCount := by decide
  unfold dump
  rw [nodeCount_eq]
  split_ifs with hshape hsize <;> simp <;> lia

/-! ### Kits -/

/-- A kit with a payload, of one of the types of generated trees. -/
structure Loadable (k : ContentKit) : Prop where
  payload : k.isEmpty = false
  typed : ∃ type ∈ contentTypes, type.id = k.contentTypeId

theorem loadable_kit (parent : Option ContentKit) (number position : Nat) :
    Loadable (kit mint parent leaf number position) := by
  have htyped : ∀ leaf : Bool, ∃ type ∈ contentTypes,
      type.id = if leaf then pageType else folderType := by decide
  cases parent <;> exact ⟨rfl, htyped leaf⟩

theorem standsAtTop_kit (number position : Nat) :
    (kit mint none leaf number position).StandsAtTop := ⟨rfl, rfl, rfl⟩

theorem standsUnder_kit (hdeep : q.level.toNat + 1 < UInt32.size) (number position : Nat) :
    (kit mint (some q) leaf number position).StandsUnder q where
  parentId_eq := rfl
  level_eq := (UInt32.toNat_add q.level 1).trans (Nat.mod_eq_of_lt hdeep)
  path_eq := rfl

/-! ### The level below some kits -/

theorem exists_of_mem_levelBelow (hk : k ∈ levelBelow mint fanout leaf next row) :
    ∃ q ∈ row, ∃ number position, k = kit mint (some q) leaf number position := by
  obtain ⟨e, he, hk⟩ := List.mem_flatMap.mp hk
  obtain ⟨position, -, rfl⟩ := List.mem_map.mp hk
  exact ⟨e.1, List.fst_mem_of_mem_zipIdx he, _, position, rfl⟩

theorem flatMap_zipIdx_range {α : Type} (xs : List α) (fanout next start : Nat) :
    ((xs.zipIdx start).flatMap fun e ↦
        (List.range fanout).map fun position ↦ next + e.2 * fanout + position) =
      List.range' (next + start * fanout) (xs.length * fanout) := by
  induction xs generalizing start with
  | nil => simp
  | cons x xs ih =>
    rw [List.zipIdx_cons, List.flatMap_cons, ih, ← List.range'_eq_map_range, Nat.succ_mul start,
      ← Nat.add_assoc, List.range'_append_1, List.length_cons, Nat.succ_mul, Nat.add_comm fanout]

theorem map_id_levelBelow (mint : Mint) (fanout : Nat) (leaf : Bool) (next : Nat)
    (row : List ContentKit) :
    (levelBelow mint fanout leaf next row).map ContentKit.id =
      (List.range' next (row.length * fanout)).map fun number ↦ ⟨UInt32.ofNat number⟩ := by
  have hnumbers := flatMap_zipIdx_range row fanout next 0
  rw [Nat.zero_mul, Nat.add_zero] at hnumbers
  rw [← hnumbers, List.map_flatMap, levelBelow, List.map_flatMap]
  refine List.flatMap_congr fun e _ ↦ ?_
  rw [List.map_map, List.map_map]
  rfl

theorem length_levelBelow (mint : Mint) (fanout : Nat) (leaf : Bool) (next : Nat)
    (row : List ContentKit) :
    (levelBelow mint fanout leaf next row).length = row.length * fanout := by
  have hids := congrArg List.length (map_id_levelBelow mint fanout leaf next row)
  rwa [List.length_map, List.length_map, List.length_range'] at hids

theorem toNat_val_ofNat {numbers : List Nat} (hroom : ∀ number ∈ numbers, number < UInt32.size) :
    (numbers.map fun number ↦ (⟨UInt32.ofNat number⟩ : ContentId)).map (·.val.toNat) =
      numbers := by
  rw [List.map_map]
  exact (List.map_congr_left fun number hnumber ↦
    UInt32.toNat_ofNat_of_lt (hroom number hnumber)).trans (List.map_id _)

/-- A level has the numbers from the next one on, as long as there is room. -/
theorem numbers_levelBelow (mint : Mint) (leaf : Bool)
    (hroom : next + row.length * fanout ≤ UInt32.size) :
    numbers (levelBelow mint fanout leaf next row) = List.range' next (row.length * fanout) := by
  rw [numbers_eq_map_map, map_id_levelBelow, toNat_val_ofNat fun number hnumber ↦ ?_]
  exact (List.mem_range'_1.mp hnumber).2.trans_le hroom

/-- The kits of a level name one kit above them after the other, each so many times. -/
theorem map_parentId_levelBelow (mint : Mint) (fanout : Nat) (leaf : Bool) (next : Nat)
    (row : List ContentKit) :
    (levelBelow mint fanout leaf next row).map parentId =
      row.flatMap fun q ↦ List.replicate fanout (some q.id) := by
  have hchildren : ∀ e ∈ row.zipIdx, ((List.range fanout).map fun position ↦
      kit mint (some e.1) leaf (next + e.2 * fanout + position) position).map parentId =
        List.replicate fanout (some e.1.id) := fun e _ ↦ by
    rw [List.map_map]
    exact List.map_const.trans (congrArg (List.replicate · _) List.length_range)
  rw [levelBelow, List.map_flatMap, List.flatMap_congr hchildren]
  conv_rhs => rw [← List.zipIdx_map_fst 0 row, List.flatMap_map]

theorem countUnder_levelBelow_some (p : ContentId) :
    countUnder (levelBelow mint fanout leaf next row) (some p) =
      (row.map ContentKit.id).count p * fanout := by
  rw [countUnder, map_parentId_levelBelow]
  induction row with
  | nil => simp
  | cons q row ih =>
    rw [List.flatMap_cons, List.count_append, ih, List.map_cons, List.count_cons,
      List.count_replicate]
    by_cases hid : q.id = p
    · simp [hid, Nat.succ_mul, Nat.add_comm fanout]
    · simp [hid]

theorem countUnder_levelBelow_none :
    countUnder (levelBelow mint fanout leaf next row) none = 0 := by
  rw [countUnder, map_parentId_levelBelow]
  exact List.count_eq_zero_of_not_mem (by simp)

/-! ### One level after another -/

/-- The kits that there are when so many levels of a shape are complete and have all their children,
and so is the level of these children, which is kept apart. -/
structure Rows (t : SyntheticTree) (height : Nat) (above row : List ContentKit) : Prop where
  length_above : above.length = t.countTo height
  length_row : row.length = t.roots.toNat * t.fanout.toNat ^ height
  numbers_eq : numbers (above ++ row) = List.range' 1 (above ++ row).length
  parentsFirst : ParentsFirst (above ++ row)
  loadable : ∀ k ∈ above ++ row, Loadable k
  level_above : ∀ k ∈ above, k.level.toNat ≤ height
  level_row : ∀ k ∈ row, k.level.toNat = height + 1
  tops : countUnder (above ++ row) none = t.roots.toNat
  children : ∀ q ∈ above, countUnder (above ++ row) (some q.id) = t.fanout.toNat
  childless : ∀ q ∈ row, countUnder (above ++ row) (some q.id) = 0

/-- The first level of a shape. -/
def topRow (t : SyntheticTree) (mint : Mint) : List ContentKit :=
  (List.range t.roots.toNat).map fun position ↦ kit mint none (t.depth == 1) (1 + position) position

/-- The level below the last one, numbered on from all kits that there are. -/
def nextRow (t : SyntheticTree) (mint : Mint) (leaf : Bool) (above row : List ContentKit) :
    List ContentKit :=
  levelBelow mint t.fanout.toNat leaf (1 + (above ++ row).length) row

theorem length_topRow (t : SyntheticTree) (mint : Mint) :
    (t.topRow mint).length = t.roots.toNat := by
  rw [topRow, List.length_map, List.length_range]

theorem of_mem_topRow (hk : k ∈ t.topRow mint) : k.StandsAtTop ∧ Loadable k := by
  obtain ⟨position, -, rfl⟩ := List.mem_map.mp hk
  exact ⟨standsAtTop_kit _ _, loadable_kit _ _ _⟩

theorem numbers_topRow (t : SyntheticTree) (mint : Mint) :
    numbers (t.topRow mint) = List.range' 1 t.roots.toNat := by
  have hids : (t.topRow mint).map ContentKit.id =
      (List.range' 1 t.roots.toNat).map fun number ↦ ⟨UInt32.ofNat number⟩ := by
    rw [List.range'_eq_map_range, topRow, List.map_map, List.map_map]
    rfl
  rw [numbers_eq_map_map, hids, toNat_val_ofNat fun number hnumber ↦ ?_]
  have hlast := (List.mem_range'_1.mp hnumber).2
  have hroots := t.roots.toNat_lt
  lia

theorem map_parentId_topRow (t : SyntheticTree) (mint : Mint) :
    (t.topRow mint).map parentId = List.replicate t.roots.toNat none := by
  refine List.eq_replicate_iff.mpr ⟨by rw [List.length_map, length_topRow], fun p hp ↦ ?_⟩
  obtain ⟨k, hk, rfl⟩ := List.mem_map.mp hp
  exact (of_mem_topRow hk).1.parentId_eq

/-- The first level has nothing above it. -/
theorem rows_topRow (t : SyntheticTree) (mint : Mint) : t.Rows 0 [] (t.topRow mint) where
  length_above := rfl
  length_row := by rw [length_topRow, pow_zero, mul_one]
  numbers_eq := by rw [List.nil_append, numbers_topRow, length_topRow]
  parentsFirst done k rest hsplit := by
    have hmem : k ∈ [] ++ t.topRow mint := hsplit ▸ List.mem_append_cons_self
    exact Or.inl (of_mem_topRow hmem).1
  loadable _ hk := (of_mem_topRow hk).2
  level_above := by simp
  level_row _ hk := (of_mem_topRow hk).1.level_eq
  tops := by rw [List.nil_append, countUnder, map_parentId_topRow, List.count_replicate_self]
  children := by simp
  childless q _ := by
    rw [List.nil_append, countUnder, map_parentId_topRow]
    exact List.count_eq_zero_of_not_mem (by simp)

namespace Rows

theorem length_append (h : t.Rows height above row) :
    (above ++ row).length = t.countTo (height + 1) := by
  rw [List.length_append, h.length_above, h.length_row, countTo_succ]

theorem length_mul_fanout (h : t.Rows height above row) :
    row.length * t.fanout.toNat = t.roots.toNat * t.fanout.toNat ^ (height + 1) := by
  rw [h.length_row, pow_succ, mul_assoc]

/-- The numbers go on where they ended. -/
theorem numbers_nextRow (h : t.Rows height above row)
    (hroom : t.countTo (height + 2) < UInt32.size) :
    numbers (above ++ row ++ t.nextRow mint leaf above row) =
      List.range' 1 (above ++ row ++ t.nextRow mint leaf above row).length := by
  rw [countTo_succ, ← h.length_append, ← h.length_mul_fanout] at hroom
  rw [nextRow, numbers_append, h.numbers_eq, numbers_levelBelow mint leaf (by lia),
    List.range'_append_1, ← length_levelBelow mint t.fanout.toNat leaf, ← List.length_append]

theorem standsUnder_nextRow (h : t.Rows height above row) (hdeep : height + 2 < UInt32.size)
    (hk : k ∈ t.nextRow mint leaf above row) : ∃ q ∈ row, k.StandsUnder q := by
  obtain ⟨q, hq, number, position, rfl⟩ := exists_of_mem_levelBelow hk
  exact ⟨q, hq, standsUnder_kit (by rw [h.level_row q hq]; exact hdeep) _ _⟩

/-- The kits of the last level get all their children at once, the others have them already. -/
theorem countUnder_nextRow (h : t.Rows height above row)
    (hnodup : ((above ++ row).map ContentKit.id).Nodup) (hq : q ∈ above ++ row) :
    countUnder (above ++ row ++ t.nextRow mint leaf above row) (some q.id) = t.fanout.toNat := by
  rw [List.map_append, List.nodup_append] at hnodup
  rw [countUnder_append, nextRow, countUnder_levelBelow_some]
  obtain hq | hq := List.mem_append.mp hq
  · have hnot : q.id ∉ row.map ContentKit.id := fun hmem ↦
      hnodup.2.2 q.id (List.mem_map_of_mem hq) q.id hmem rfl
    rw [h.children q hq, List.count_eq_zero_of_not_mem hnot, Nat.zero_mul, Nat.add_zero]
  · rw [h.childless q hq, List.count_eq_one_of_mem hnodup.2.1 (List.mem_map_of_mem hq),
      Nat.one_mul, Nat.zero_add]

/-- Nothing stands under a new id. -/
theorem countUnder_nextRow_of_new (h : t.Rows height above row) {p : ContentId}
    (hnew : p ∉ (above ++ row).map ContentKit.id) :
    countUnder (above ++ row ++ t.nextRow mint leaf above row) (some p) = 0 := by
  have hrow : p ∉ row.map ContentKit.id := fun hmem ↦
    hnew (List.map_append ▸ List.mem_append_right _ hmem)
  rw [countUnder_append, h.parentsFirst.countUnder_eq_zero hnew, nextRow,
    countUnder_levelBelow_some, List.count_eq_zero_of_not_mem hrow, Nat.zero_mul]

/-- One more level is complete. -/
theorem below (h : t.Rows height above row) (mint : Mint) (leaf : Bool)
    (hroom : t.countTo (height + 2) < UInt32.size) (hdeep : height + 2 < UInt32.size) :
    t.Rows (height + 1) (above ++ row) (t.nextRow mint leaf above row) := by
  have hnumbers : numbers (above ++ row ++ t.nextRow mint leaf above row) = _ :=
    h.numbers_nextRow hroom
  have hnodup := nodup_ids_of_numbers hnumbers
  rw [List.map_append, List.nodup_append] at hnodup
  obtain ⟨hnodup, -, hnew⟩ := hnodup
  exact {
    length_above := h.length_append
    length_row := (length_levelBelow ..).trans h.length_mul_fanout
    numbers_eq := hnumbers
    parentsFirst := h.parentsFirst.append fun k hk ↦ by
      obtain ⟨q, hq, hunder⟩ := h.standsUnder_nextRow hdeep hk
      exact ⟨q, List.mem_append_right _ hq, hunder⟩
    loadable := fun k hk ↦ by
      obtain hk | hk := List.mem_append.mp hk
      · exact h.loadable k hk
      · obtain ⟨q, -, number, position, rfl⟩ := exists_of_mem_levelBelow hk
        exact loadable_kit _ _ _
    level_above := fun k hk ↦ by
      obtain hk | hk := List.mem_append.mp hk
      · exact Nat.le_succ_of_le (h.level_above k hk)
      · exact (h.level_row k hk).le
    level_row := fun k hk ↦ by
      obtain ⟨q, hq, hunder⟩ := h.standsUnder_nextRow hdeep hk
      rw [hunder.level_eq, h.level_row q hq]
    tops := by
      rw [countUnder_append, h.tops, nextRow, countUnder_levelBelow_none, Nat.add_zero]
    children := fun q hq ↦ h.countUnder_nextRow hnodup hq
    childless := fun q hq ↦ h.countUnder_nextRow_of_new fun hmem ↦
      hnew q.id hmem q.id (List.mem_map_of_mem hq) rfl }

end Rows

theorem levels_nil (mint : Mint) (fanout depth next : Nat) :
    levels mint fanout depth next [] = [] := by
  cases depth <;> rfl

/-- The kits of a level and of those below it, also where a level has no kits. -/
theorem levels_succ (mint : Mint) (fanout depth next : Nat) (row : List ContentKit) :
    levels mint fanout (depth + 1) next row =
      row ++ levels mint fanout depth
        (next + (levelBelow mint fanout (depth == 0) next row).length)
        (levelBelow mint fanout (depth == 0) next row) := by
  cases row with
  | nil => exact (levels_nil ..).symm
  | cons k row => rfl

/-- Any number of further levels is complete. -/
theorem Rows.levels (h : t.Rows height above row) (mint : Mint) (more : Nat)
    (hroom : t.countTo (height + more + 1) < UInt32.size)
    (hdeep : height + more + 1 < UInt32.size) :
    ∃ above' row', above ++ levels mint t.fanout.toNat more (1 + (above ++ row).length) row =
        above' ++ row' ∧ t.Rows (height + more) above' row' := by
  induction more generalizing height above row with
  | zero => exact ⟨above, row, rfl, h⟩
  | succ more ih =>
    have hheight : height + (more + 1) = height + 1 + more := by lia
    rw [hheight] at hroom hdeep ⊢
    have hnext := h.below mint (more == 0) ((t.countTo_mono (by lia)).trans_lt hroom) (by lia)
    obtain ⟨above', row', heq, hrows⟩ := ih hnext hroom hdeep
    refine ⟨above', row', ?_, hrows⟩
    rw [levels_succ, ← List.append_assoc, Nat.add_assoc, ← List.length_append, ← heq]
    rfl

/-! ### The whole list -/

/-- The kits of a shape, listed with their parents first and numbered from one on, without a gap and
with room for a number after the last one. -/
structure Enumerates (t : SyntheticTree) (ks : List ContentKit) : Prop where
  length_eq : ks.length = t.nodeCount
  room : ks.length + 1 < UInt32.size
  numbers_eq : numbers ks = List.range' 1 ks.length
  parentsFirst : ParentsFirst ks
  loadable : ∀ k ∈ ks, Loadable k
  level_le : ∀ k ∈ ks, k.level.toNat ≤ t.depth.toNat
  tops : countUnder ks none = t.roots.toNat
  children : ∀ q ∈ ks, countUnder ks (some q.id) =
    if q.level.toNat < t.depth.toNat then t.fanout.toNat else 0

theorem Rows.enumerates (h : t.Rows height above row) (hdepth : t.depth.toNat = height + 1)
    (hsize : t.nodeCount ≤ maxNodes) : t.Enumerates (above ++ row) := by
  have hlength : (above ++ row).length = t.nodeCount := by
    have hmax : maxNodes < maxCount := by decide
    rw [nodeCount_eq] at hsize ⊢
    rw [h.length_append, ← hdepth]
    lia
  exact {
    length_eq := hlength
    room := by
      have hmax : maxNodes + 1 < UInt32.size := by decide
      lia
    numbers_eq := h.numbers_eq
    parentsFirst := h.parentsFirst
    loadable := h.loadable
    level_le := fun k hk ↦ by
      obtain hk | hk := List.mem_append.mp hk
      · exact hdepth ▸ Nat.le_succ_of_le (h.level_above k hk)
      · exact hdepth ▸ (h.level_row k hk).le
    tops := h.tops
    children := fun q hq ↦ by
      obtain hq | hq := List.mem_append.mp hq
      · rw [h.children q hq, if_pos (hdepth ▸ Nat.lt_succ_of_le (h.level_above q hq))]
      · rw [h.childless q hq, if_neg (hdepth ▸ (h.level_row q hq).not_lt)] }

theorem enumerates_of_dump {d : KitDump} (hd : t.dump mint = .ok d) :
    t.Enumerates d.kits ∧ d.contentTypes = contentTypes := by
  unfold dump at hd
  split_ifs at hd with hshape hsize
  obtain rfl := Except.ok.inj hd
  refine ⟨?_, rfl⟩
  rw [not_or] at hshape
  have hpos : t.depth.toNat ≠ 0 := fun hzero ↦ hshape.2 (UInt32.toNat_inj.mp hzero)
  -- the first level stands, and so many more are made below it
  have hdepth : t.depth.toNat = 0 + (t.depth.toNat - 1) + 1 := by lia
  have hcount : t.countTo t.depth.toNat < UInt32.size := by
    have hmax : maxNodes < maxCount ∧ maxNodes < UInt32.size := by decide
    rw [nodeCount_eq] at hsize
    lia
  obtain ⟨above, row, heq, hrows⟩ := (t.rows_topRow mint).levels mint (t.depth.toNat - 1)
    (hdepth ▸ hcount) (hdepth ▸ t.depth.toNat_lt)
  have hkits : t.kits mint = above ++ row := heq
  exact hkits ▸ hrows.enumerates hdepth (Nat.le_of_not_lt hsize)

end SyntheticTree

end VersionedContent
