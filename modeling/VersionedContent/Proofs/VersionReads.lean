import Mathlib.Data.List.Basic
import Mathlib.Tactic.SplitIfs
import VersionedContent.VersionMap

/-!
# What a generation sees of a versioned table

Writing at the live generation acts on the plain map that every generation from the live one on
sees, and on no other (`VersionMap.viewAt_set`, `VersionMap.viewAt_clear`,
`VersionMap.viewAt_clearAll`). This needs no head of a chain to be newer than the live generation,
which every operation keeps (`VersionMap.HeadsLE`). Pruning at a floor leaves the map of every
generation at or above it as it is, and can only hide values from one below
(`VersionMap.viewAt_prune`, `VersionMap.get?_prune_or`).
-/

set_option autoImplicit false

namespace VersionedContent

/-! ### One chain -/

namespace Chain

variable {α : Type} {c : Chain α} {live floor generation : Generation} {value : Option α}

theorem get?_eq_live? (hle : c.head.generation ≤ generation) : c.get? generation = c.live? := by
  simp [get?, visible?, versions, live?, hle]

@[simp] theorem get?_single :
    (single live value).get? generation = if live ≤ generation then value else none := by
  unfold get? visible? versions single
  by_cases hle : live ≤ generation <;> simp [hle]

/-- A write changes what the live generation and later ones see, and nothing before. -/
theorem get?_written (hhead : c.head.generation ≤ live) :
    (c.written live value).get? generation =
      if live ≤ generation then value else c.get? generation := by
  rcases Nat.eq_or_lt_of_le hhead with heq | hlt
  · by_cases hle : live ≤ generation <;>
      simp [written, write?, get?, visible?, versions, heq, hle]
  · by_cases hle : live ≤ generation <;>
      simp [written, write?, get?, visible?, versions, Nat.ne_of_lt hlt, hlt, hle]

theorem head_written (hhead : c.head.generation ≤ live) :
    (c.written live value).head = ⟨live, value⟩ := by
  rcases Nat.eq_or_lt_of_le hhead with heq | hlt
  · simp [written, write?, heq]
  · simp [written, write?, Nat.ne_of_lt hlt, hlt]

/-- A chain whose only version is a deletion shows nothing to anyone. -/
theorem get?_of_isStandaloneAbsent (h : c.isStandaloneAbsent = true) :
    c.get? generation = none := by
  obtain ⟨⟨head, value⟩, older⟩ := c
  simp only [isStandaloneAbsent, Bool.and_eq_true, Option.isNone_iff_eq_none,
    List.isEmpty_iff] at h
  obtain ⟨rfl, rfl⟩ := h
  by_cases hle : head ≤ generation <;> simp [get?, visible?, versions, hle]

/-- Clearing a key hides it from the live generation on, also when its chain goes away. -/
theorem get?_cleared? (hhead : c.head.generation ≤ live) :
    (c.cleared? live).bind (·.get? generation) =
      if live ≤ generation then none else c.get? generation := by
  unfold cleared?
  by_cases habsent : c.live?.isNone = true
  · rw [if_pos habsent, Option.bind_some]
    split_ifs with hle
    · exact (get?_eq_live? (Nat.le_trans hhead hle)).trans (Option.isNone_iff_eq_none.mp habsent)
    · rfl
  · rw [if_neg habsent, ← get?_written hhead]
    split_ifs with hgone
    · exact (get?_of_isStandaloneAbsent hgone).symm
    · rfl

theorem head_cleared?_le (hhead : c.head.generation ≤ live) :
    ∀ d ∈ c.cleared? live, d.head.generation ≤ live := by
  intro d hd
  unfold cleared? at hd
  split_ifs at hd
  · rwa [← Option.some.inj hd]
  · exact absurd hd (Option.not_mem_none d)
  · rw [← Option.some.inj hd]
    exact Nat.le_of_eq (congrArg Version.generation (head_written hhead))

/-- Every version is above the floor or from the newest one at or below it on. -/
theorem above_append_below (c : Chain α) (floor : Generation) :
    c.above floor ++ c.below floor = c.versions :=
  List.takeWhile_append_dropWhile

/-- The versions that pruning keeps: those above the floor and the newest one at or below it. -/
theorem versions_pruned (c : Chain α) (floor : Generation) :
    (c.pruned floor).versions = c.above floor ++ (c.below floor).take 1 := by
  unfold pruned
  split
  · next hkept => exact hkept.symm
  · next hkept =>
    have hall := above_append_below c floor
    obtain ⟨habove, hbelow⟩ := List.append_eq_nil_iff.mp hkept
    rw [habove, List.nil_append] at hall
    rw [hall] at hbelow
    exact absurd hbelow (by simp [versions])

theorem head_pruned (c : Chain α) (floor : Generation) : (c.pruned floor).head = c.head := by
  have hkept := versions_pruned c floor
  have hall := above_append_below c floor
  cases habove : c.above floor with
  | nil =>
    rw [habove, List.nil_append] at hkept hall
    rw [hall] at hkept
    exact (List.cons.inj hkept).1
  | cons v rest =>
    rw [habove] at hkept hall
    exact (List.cons.inj hkept).1.trans (List.cons.inj hall).1

/-- A generation sees the first version above the floor that it reaches, or else the newest one
at or below the floor that it reaches. -/
theorem visible?_eq (c : Chain α) (floor generation : Generation) :
    c.visible? generation =
      ((c.above floor).find? fun v ↦ decide (v.generation ≤ generation)).or
        ((c.below floor).find? fun v ↦ decide (v.generation ≤ generation)) := by
  rw [visible?, ← above_append_below c floor, List.find?_append]

/-- The first version from the newest one at or below the floor on is that one. -/
theorem generation_head_below {v : Version α} {rest : List (Version α)}
    (h : c.below floor = v :: rest) : v.generation ≤ floor := by
  have hhead :=
    List.head?_dropWhile_not (fun v : Version α ↦ decide (floor < v.generation)) c.versions
  have hbelow : c.versions.dropWhile (fun v ↦ decide (floor < v.generation)) = v :: rest := h
  rw [hbelow] at hhead
  simpa using hhead

/-- Pruning keeps what every generation at or above the floor sees. -/
theorem get?_pruned (hle : floor ≤ generation) :
    (c.pruned floor).get? generation = c.get? generation := by
  unfold get?
  rw [visible?_eq c floor, visible?, versions_pruned, List.find?_append]
  congr 2
  cases hbelow : c.below floor with
  | nil => rfl
  | cons v rest =>
    have hv : v.generation ≤ generation := Nat.le_trans (generation_head_below hbelow) hle
    simp [hv]

/-- Pruning shows a generation below the floor what it saw before, or nothing. -/
theorem get?_pruned_or (c : Chain α) (floor generation : Generation) :
    (c.pruned floor).get? generation = c.get? generation ∨
      (c.pruned floor).get? generation = none := by
  unfold get?
  rw [visible?_eq c floor, visible?, versions_pruned, List.find?_append]
  cases (c.above floor).find? fun v ↦ decide (v.generation ≤ generation) with
  | some v => exact Or.inl rfl
  | none =>
    cases hbelow : c.below floor with
    | nil => exact Or.inl rfl
    | cons v rest =>
      by_cases hv : v.generation ≤ generation
      · exact Or.inl (by simp [hv])
      · exact Or.inr (by simp [hv])

end Chain

/-! ### One table -/

namespace VersionMap

variable {κ α : Type} [Ord κ] [Std.TransOrd κ]
variable {m : VersionMap κ α} {live floor generation : Generation} {key : κ}

/-- No chain has a version newer than a generation. -/
def HeadsLE (m : VersionMap κ α) (live : Generation) : Prop :=
  ∀ (key : κ) (c : Chain α), m.chains[key]? = some c → c.head.generation ≤ live

theorem headsLE_empty : (empty : VersionMap κ α).HeadsLE live := by
  simp [HeadsLE, empty]

theorem HeadsLE.mono (h : m.HeadsLE live) {later : Generation} (hle : live ≤ later) :
    m.HeadsLE later :=
  fun key c hc ↦ Nat.le_trans (h key c hc) hle

theorem HeadsLE.set (h : m.HeadsLE live) (value : α) : (m.set live key value).HeadsLE live := by
  intro other c hc
  rw [VersionMap.set, Std.ExtTreeMap.getElem?_alter] at hc
  split_ifs at hc with heq
  · cases hold : m.chains[key]? with
    | none =>
      rw [hold] at hc
      rw [← Option.some.inj hc]
      exact Nat.le_refl live
    | some old =>
      rw [hold] at hc
      rw [← Option.some.inj hc]
      exact Nat.le_of_eq (congrArg Version.generation (Chain.head_written (h key old hold)))
  · exact h other c hc

theorem HeadsLE.clear (h : m.HeadsLE live) : (m.clear live key).HeadsLE live := by
  intro other c hc
  rw [VersionMap.clear, Std.ExtTreeMap.getElem?_alter] at hc
  split_ifs at hc
  · obtain ⟨old, hold, hcleared⟩ := Option.bind_eq_some_iff.mp hc
    exact Chain.head_cleared?_le (h key old hold) c hcleared
  · exact h other c hc

theorem getElem?_viewAt (m : VersionMap κ α) (generation : Generation) (key : κ) :
    (m.viewAt generation)[key]? = m.get? generation key := by
  simp [viewAt, get?]

theorem getElem?_liveView (m : VersionMap κ α) (key : κ) : m.liveView[key]? = m.live? key := by
  simp [liveView, live?]

variable [Std.LawfulEqOrd κ]

theorem viewAt_empty : (empty : VersionMap κ α).viewAt generation = ∅ := by
  ext key : 1
  rw [getElem?_viewAt, get?]
  simp [empty]

/-- The writer sees what the live generation and every later one sees. -/
theorem viewAt_eq_liveView (h : m.HeadsLE live) (hle : live ≤ generation) :
    m.viewAt generation = m.liveView := by
  ext key : 1
  rw [getElem?_viewAt, getElem?_liveView, get?, live?]
  cases hc : m.chains[key]? with
  | none => rfl
  | some c => exact Chain.get?_eq_live? (Nat.le_trans (h key c hc) hle)

/-! ### Setting a key -/

/-- Setting a key is an insertion for the live generation and every later one. -/
theorem viewAt_set (h : m.HeadsLE live) (value : α) :
    (m.set live key value).viewAt generation =
      if live ≤ generation then (m.viewAt generation).insert key value
      else m.viewAt generation := by
  ext other : 1
  rw [getElem?_viewAt, get?, set, Std.ExtTreeMap.getElem?_alter]
  split_ifs with heq hle hle
  · rw [Std.ExtTreeMap.getElem?_insert, if_pos heq]
    cases hc : m.chains[key]? with
    | none => exact Chain.get?_single.trans (if_pos hle)
    | some c => exact (Chain.get?_written (h key c hc)).trans (if_pos hle)
  · rw [getElem?_viewAt, get?, ← Std.LawfulEqOrd.eq_of_compare heq]
    cases hc : m.chains[key]? with
    | none => exact Chain.get?_single.trans (if_neg hle)
    | some c => exact (Chain.get?_written (h key c hc)).trans (if_neg hle)
  · rw [Std.ExtTreeMap.getElem?_insert, if_neg heq, getElem?_viewAt, get?]
  · rw [getElem?_viewAt, get?]

/-! ### Clearing keys -/

/-- Clearing a key is its removal for the live generation and every later one. -/
theorem viewAt_clear (h : m.HeadsLE live) :
    (m.clear live key).viewAt generation =
      if live ≤ generation then (m.viewAt generation).erase key else m.viewAt generation := by
  ext other : 1
  rw [getElem?_viewAt, get?, clear, Std.ExtTreeMap.getElem?_alter]
  split_ifs with heq hle hle
  · rw [Std.ExtTreeMap.getElem?_erase, if_pos heq]
    cases hc : m.chains[key]? with
    | none => rfl
    | some c => exact (Chain.get?_cleared? (h key c hc)).trans (if_pos hle)
  · rw [getElem?_viewAt, get?, ← Std.LawfulEqOrd.eq_of_compare heq]
    cases hc : m.chains[key]? with
    | none => rfl
    | some c => exact (Chain.get?_cleared? (h key c hc)).trans (if_neg hle)
  · rw [Std.ExtTreeMap.getElem?_erase, if_neg heq, getElem?_viewAt, get?]
  · rw [getElem?_viewAt, get?]

theorem HeadsLE.clearAll (h : m.HeadsLE live) : (m.clearAll live).HeadsLE live := by
  intro key c hc
  rw [VersionMap.clearAll, Std.ExtTreeMap.getElem?_filterMap'] at hc
  obtain ⟨old, hold, hcleared⟩ := Option.bind_eq_some_iff.mp hc
  exact Chain.head_cleared?_le (h key old hold) c hcleared

/-- Clearing every key leaves nothing for the live generation and every later one. -/
theorem viewAt_clearAll (h : m.HeadsLE live) :
    (m.clearAll live).viewAt generation =
      if live ≤ generation then ∅ else m.viewAt generation := by
  ext key : 1
  have hkey : ((m.clearAll live).viewAt generation)[key]? =
      if live ≤ generation then none else (m.viewAt generation)[key]? := by
    rw [getElem?_viewAt, getElem?_viewAt, get?, get?, clearAll,
      Std.ExtTreeMap.getElem?_filterMap']
    cases hc : m.chains[key]? with
    | none => simp
    | some c => exact Chain.get?_cleared? (h key c hc)
  rw [hkey]
  split_ifs <;> simp

/-! ### Pruning -/

theorem get?_prune (m : VersionMap κ α) (floor generation : Generation) (key : κ) :
    (m.prune floor).get? generation key =
      m.chains[key]?.bind fun c ↦ (c.pruned floor).get? generation := by
  rw [get?, prune, Std.ExtTreeMap.getElem?_filterMap']
  cases m.chains[key]? with
  | none => rfl
  | some c =>
    simp only [Option.bind_some]
    split_ifs with hdead
    · simp only [Chain.isDead, Bool.and_eq_true] at hdead
      exact (Chain.get?_of_isStandaloneAbsent hdead.2).symm
    · rfl

theorem HeadsLE.prune (h : m.HeadsLE live) : (m.prune floor).HeadsLE live := by
  intro key c hc
  rw [VersionMap.prune, Std.ExtTreeMap.getElem?_filterMap'] at hc
  obtain ⟨old, hold, hkept⟩ := Option.bind_eq_some_iff.mp hc
  split_ifs at hkept
  rw [← Option.some.inj hkept, Chain.head_pruned]
  exact h key old hold

/-- Pruning keeps the map of every generation at or above the floor. -/
theorem viewAt_prune (hle : floor ≤ generation) :
    (m.prune floor).viewAt generation = m.viewAt generation := by
  ext key : 1
  rw [getElem?_viewAt, getElem?_viewAt, get?_prune]
  simp only [Chain.get?_pruned hle, get?]

/-- Pruning shows a generation below the floor what it saw of a key before, or nothing. -/
theorem get?_prune_or (m : VersionMap κ α) (floor generation : Generation) (key : κ) :
    (m.prune floor).get? generation key = m.get? generation key ∨
      (m.prune floor).get? generation key = none := by
  rw [get?_prune, get?]
  cases m.chains[key]? with
  | none => exact Or.inl rfl
  | some c => exact Chain.get?_pruned_or c floor generation

end VersionMap

end VersionedContent
