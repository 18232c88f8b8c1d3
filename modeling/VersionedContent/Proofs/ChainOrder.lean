import VersionedContent.Proofs.DictionaryRuns
import VersionedContent.Proofs.StoreRuns

/-!
# The order of versions

In every chain the generations fall strictly from the head on, the head is not newer than the live
generation, and no chain is a single deletion (`Chain.InOrder`). Writes, removals and pruning keep
this, in every table of every dictionary and store (`chains_inOrder`). So no chain ever refuses a
write: operations that check every write and stop at the first refusal run to their end, and do what
the unchecked ones do.
-/

set_option autoImplicit false

namespace VersionedContent

/-! ### One chain -/

namespace Chain

variable {α : Type} {c d : Chain α} {live floor : Generation} {value : Option α}

/-- The generations fall strictly from the head on, the head is not newer than the live generation,
and there is more than a deletion. -/
structure InOrder (c : Chain α) (live : Generation) : Prop where
  decreasing : c.generations.Pairwise (· > ·)
  head_le : c.head.generation ≤ live
  not_standalone : c.isStandaloneAbsent = false

theorem InOrder.mono (h : c.InOrder live) {later : Generation} (hle : live ≤ later) :
    c.InOrder later :=
  ⟨h.decreasing, Nat.le_trans h.head_le hle, h.not_standalone⟩

theorem inOrder_single (live : Generation) (value : α) :
    (single live (some value)).InOrder live where
  decreasing := List.pairwise_singleton _ _
  head_le := Nat.le_refl live
  not_standalone := rfl

/-- A chain that is not newer than the live generation takes a write. -/
theorem write?_eq (hhead : c.head.generation ≤ live) :
    c.write? live value = some (c.written live value) := by
  unfold written write?
  split_ifs with heq hlt
  · rfl
  · rfl
  · exact absurd (Nat.lt_of_le_of_ne hhead heq) hlt

/-- A newer one refuses it. -/
example : (single 3 (some 0)).write? 2 none = none := rfl

theorem versions_written (hhead : c.head.generation ≤ live) :
    (c.written live value).versions =
      ⟨live, value⟩ :: if c.head.generation = live then c.older else c.versions := by
  unfold written write?
  split_ifs with heq hlt
  · rfl
  · rfl
  · exact absurd (Nat.lt_of_le_of_ne hhead heq) hlt

/-- A write puts the live generation before older ones only. -/
theorem InOrder.decreasing_written (h : c.InOrder live) :
    (c.written live value).generations.Pairwise (· > ·) := by
  have hversions := List.pairwise_cons.mp h.decreasing
  rw [generations, versions_written h.head_le, List.map_cons, List.pairwise_cons]
  split_ifs with heq
  · exact heq ▸ hversions
  · have hlt : c.head.generation < live := Nat.lt_of_le_of_ne h.head_le heq
    refine ⟨fun g hg ↦ ?_, h.decreasing⟩
    rcases List.mem_cons.mp hg with rfl | hold
    · exact hlt
    · exact Nat.lt_trans (hversions.1 g hold) hlt

theorem InOrder.written (h : c.InOrder live)
    (hkept : (c.written live value).isStandaloneAbsent = false) :
    (c.written live value).InOrder live where
  decreasing := h.decreasing_written
  head_le := Nat.le_of_eq (congrArg Version.generation (head_written h.head_le))
  not_standalone := hkept

theorem InOrder.written_some (h : c.InOrder live) (value : α) :
    (c.written live (some value)).InOrder live :=
  h.written (by rw [isStandaloneAbsent, head_written h.head_le]; rfl)

/-- A cleared chain that is left as a single deletion goes away. -/
theorem InOrder.cleared (h : c.InOrder live) (hd : c.cleared? live = some d) : d.InOrder live := by
  unfold cleared? at hd
  split_ifs at hd with habsent hgone
  · exact Option.some.inj hd ▸ h
  · exact Option.some.inj hd ▸ h.written (Bool.eq_false_iff.mpr hgone)

/-- What is newer than the floor is the last version of a pruned chain only if it was before. -/
theorem older_pruned_eq_nil_iff (hnewer : floor < c.head.generation) :
    (c.pruned floor).older = [] ↔ c.older = [] := by
  let isAbove := fun v : Version α ↦ decide (floor < v.generation)
  have habove : c.above floor = c.head :: c.older.takeWhile isAbove :=
    List.takeWhile_cons_of_pos (decide_eq_true hnewer)
  have hbelow : c.below floor = c.older.dropWhile isAbove :=
    List.dropWhile_cons_of_pos (decide_eq_true hnewer)
  have holder : (c.pruned floor).older =
      c.older.takeWhile isAbove ++ (c.older.dropWhile isAbove).take 1 := by
    have hversions := versions_pruned c floor
    rw [habove, hbelow, List.cons_append] at hversions
    exact (List.cons.inj hversions).2
  rw [holder]
  refine ⟨fun hnone ↦ ?_, fun hnone ↦ by rw [hnone]; rfl⟩
  obtain ⟨hfirst, hrest⟩ := List.append_eq_nil_iff.mp hnone
  have hrest : c.older.dropWhile isAbove = [] :=
    (List.take_eq_nil_iff.mp hrest).resolve_left Nat.one_ne_zero
  rw [← List.takeWhile_append_dropWhile (p := isAbove) (l := c.older), hfirst, hrest]
  rfl

/-- Pruning a chain that is more than a deletion leaves only a deletion behind that no reader
needs. -/
theorem isDead_of_isStandaloneAbsent (hkept : c.isStandaloneAbsent = false)
    (hpruned : (c.pruned floor).isStandaloneAbsent = true) :
    (c.pruned floor).isDead floor = true := by
  rw [isDead, hpruned, Bool.and_true, decide_eq_true_iff, head_pruned]
  by_contra hnewer
  have holder := older_pruned_eq_nil_iff (Nat.lt_of_not_le hnewer)
  simp only [isStandaloneAbsent, head_pruned, Bool.and_eq_true, List.isEmpty_iff, holder] at hpruned
  simp [isStandaloneAbsent, hpruned] at hkept

theorem InOrder.pruned (h : c.InOrder live) (halive : (c.pruned floor).isDead floor ≠ true) :
    (c.pruned floor).InOrder live where
  decreasing := by
    have hsublist : ((c.pruned floor).generations).Sublist c.generations := by
      rw [generations, generations, versions_pruned, ← above_append_below c floor]
      exact ((List.Sublist.refl _).append (List.take_sublist 1 _)).map _
    exact h.decreasing.sublist hsublist
  head_le := (head_pruned c floor).symm ▸ h.head_le
  not_standalone := Bool.eq_false_iff.mpr fun hpruned ↦
    halive (isDead_of_isStandaloneAbsent h.not_standalone hpruned)

end Chain

/-! ### One table -/

namespace VersionMap

variable {κ α : Type} [Ord κ] [Std.TransOrd κ]
variable {m : VersionMap κ α} {live floor : Generation} {key : κ}

/-- The versions of every key are in order. -/
def InOrder (m : VersionMap κ α) (live : Generation) : Prop :=
  ∀ (key : κ) (c : Chain α), m.chains[key]? = some c → c.InOrder live

theorem inOrder_empty : (empty : VersionMap κ α).InOrder live := by
  simp [InOrder, empty]

theorem InOrder.headsLE (h : m.InOrder live) : m.HeadsLE live := fun key c hc ↦ (h key c hc).head_le

theorem InOrder.mono (h : m.InOrder live) {later : Generation} (hle : live ≤ later) :
    m.InOrder later :=
  fun key c hc ↦ (h key c hc).mono hle

theorem InOrder.set (h : m.InOrder live) (value : α) : (m.set live key value).InOrder live := by
  intro other c hc
  rw [VersionMap.set, Std.ExtTreeMap.getElem?_alter] at hc
  split_ifs at hc
  · cases hold : m.chains[key]? with
    | none =>
      rw [hold] at hc
      exact Option.some.inj hc ▸ Chain.inOrder_single live value
    | some old =>
      rw [hold] at hc
      exact Option.some.inj hc ▸ (h key old hold).written_some value
  · exact h other c hc

theorem InOrder.clear (h : m.InOrder live) : (m.clear live key).InOrder live := by
  intro other c hc
  rw [VersionMap.clear, Std.ExtTreeMap.getElem?_alter] at hc
  split_ifs at hc
  · obtain ⟨old, hold, hcleared⟩ := Option.bind_eq_some_iff.mp hc
    exact (h key old hold).cleared hcleared
  · exact h other c hc

variable [Std.LawfulEqOrd κ]

theorem InOrder.clearAll (h : m.InOrder live) : (m.clearAll live).InOrder live := by
  intro key c hc
  rw [VersionMap.clearAll, Std.ExtTreeMap.getElem?_filterMap'] at hc
  obtain ⟨old, hold, hcleared⟩ := Option.bind_eq_some_iff.mp hc
  exact (h key old hold).cleared hcleared

theorem InOrder.prune (h : m.InOrder live) : (m.prune floor).InOrder live := by
  intro key c hc
  rw [VersionMap.prune, Std.ExtTreeMap.getElem?_filterMap'] at hc
  obtain ⟨old, hold, hkept⟩ := Option.bind_eq_some_iff.mp hc
  split_ifs at hkept with hdead
  exact Option.some.inj hkept ▸ (h key old hold).pruned hdead

/-! ### Checked writes -/

/-- Sets a key, unless its chain refuses the write. -/
def set? (m : VersionMap κ α) (live : Generation) (key : κ) (value : α) :
    Option (VersionMap κ α) :=
  match m.chains[key]? with
  | none => some ⟨m.chains.insert key (Chain.single live (some value))⟩
  | some c => (c.write? live (some value)).map fun c ↦ ⟨m.chains.insert key c⟩

/-- Clears a key, unless its chain refuses the write. -/
def clear? (m : VersionMap κ α) (live : Generation) (key : κ) : Option (VersionMap κ α) :=
  match m.chains[key]? with
  | none => some m
  | some c =>
    if c.live?.isNone then some m
    else (c.write? live none).map fun c ↦
      if c.isStandaloneAbsent then ⟨m.chains.erase key⟩ else ⟨m.chains.insert key c⟩

/-- Clears keys one after another, unless a chain refuses a write. -/
def clearEach? (m : VersionMap κ α) (live : Generation) (keys : List κ) :
    Option (VersionMap κ α) :=
  keys.foldlM (fun m key ↦ m.clear? live key) m

theorem alter_eq_insert {f : Option (Chain α) → Option (Chain α)} {c : Chain α}
    (hf : f m.chains[key]? = some c) : m.chains.alter key f = m.chains.insert key c :=
  Std.ExtTreeMap.ext_getElem? fun _ ↦ by
    rw [Std.ExtTreeMap.getElem?_alter, Std.ExtTreeMap.getElem?_insert, hf]

theorem alter_eq_erase {f : Option (Chain α) → Option (Chain α)} (hf : f m.chains[key]? = none) :
    m.chains.alter key f = m.chains.erase key :=
  Std.ExtTreeMap.ext_getElem? fun _ ↦ by
    rw [Std.ExtTreeMap.getElem?_alter, Std.ExtTreeMap.getElem?_erase, hf]

theorem alter_eq_self {f : Option (Chain α) → Option (Chain α)}
    (hf : f m.chains[key]? = m.chains[key]?) : m.chains.alter key f = m.chains :=
  Std.ExtTreeMap.ext_getElem? fun other ↦ by
    rw [Std.ExtTreeMap.getElem?_alter, hf]
    split_ifs with heq
    · rw [Std.LawfulEqOrd.eq_of_compare heq]
    · rfl

theorem set?_eq (h : m.HeadsLE live) (key : κ) (value : α) :
    m.set? live key value = some (m.set live key value) := by
  unfold set? set
  cases hc : m.chains[key]? with
  | none => rw [alter_eq_insert (c := Chain.single live (some value)) (by rw [hc])]
  | some c =>
    rw [alter_eq_insert (c := c.written live (some value)) (by rw [hc])]
    simp only [Chain.write?_eq (h key c hc), Option.map_some]

theorem clear?_eq (h : m.HeadsLE live) (key : κ) :
    m.clear? live key = some (m.clear live key) := by
  unfold clear? clear
  cases hc : m.chains[key]? with
  | none => rw [alter_eq_self (by rw [hc]; rfl)]
  | some c =>
    dsimp only
    rw [Chain.write?_eq (h key c hc), Option.map_some]
    by_cases habsent : c.live?.isNone = true
    · rw [if_pos habsent, alter_eq_self]
      rw [hc, Option.bind_some, Chain.cleared?, if_pos habsent]
    · rw [if_neg habsent]
      split_ifs with hgone
      · rw [alter_eq_erase]
        rw [hc, Option.bind_some, Chain.cleared?, if_neg habsent, if_pos hgone]
      · rw [alter_eq_insert (c := c.written live none)]
        rw [hc, Option.bind_some, Chain.cleared?, if_neg habsent, if_neg hgone]

theorem clearEach?_eq_foldl (h : m.HeadsLE live) (keys : List κ) :
    m.clearEach? live keys = some (keys.foldl (fun m key ↦ m.clear live key) m) := by
  induction keys generalizing m with
  | nil => rfl
  | cons key keys ih =>
    rw [clearEach?, List.foldlM_cons, clear?_eq h key]
    exact ih h.clear

/-- Clearing keys clears their chains, and leaves the others alone. -/
theorem getElem?_foldl_clear {keys : List κ} (hnodup : keys.Nodup) (m : VersionMap κ α)
    (live : Generation) (key : κ) :
    (key ∈ keys → (keys.foldl (fun m key ↦ m.clear live key) m).chains[key]? =
      m.chains[key]?.bind (·.cleared? live)) ∧
    (key ∉ keys → (keys.foldl (fun m key ↦ m.clear live key) m).chains[key]? =
      m.chains[key]?) := by
  induction keys generalizing m with
  | nil => exact ⟨fun hmem ↦ absurd hmem List.not_mem_nil, fun _ ↦ rfl⟩
  | cons first keys ih =>
    obtain ⟨hfirst, hrest⟩ := List.nodup_cons.mp hnodup
    obtain ⟨hmem, hother⟩ := ih hrest (m.clear live first)
    have hclear : (m.clear live first).chains[key]? =
        if compare first key = .eq then m.chains[first]?.bind (·.cleared? live)
        else m.chains[key]? := Std.ExtTreeMap.getElem?_alter
    simp only [List.foldl_cons, List.mem_cons, not_or]
    by_cases heq : key = first
    · subst heq
      rw [if_pos Std.ReflOrd.compare_self] at hclear
      exact ⟨fun _ ↦ (hother hfirst).trans hclear, fun hnot ↦ absurd rfl hnot.1⟩
    · rw [if_neg fun hcompare ↦ heq (Std.LawfulEqOrd.eq_of_compare hcompare).symm] at hclear
      rw [hclear] at hmem hother
      exact ⟨fun hin ↦ hmem (hin.resolve_left heq), fun hnot ↦ hother hnot.2⟩

/-- Clearing all keys one after another comes to the same in any order. -/
theorem clearEach?_eq (h : m.HeadsLE live) {keys : List κ} (hkeys : keys.Perm m.chains.keys) :
    m.clearEach? live keys = some (m.clearAll live) := by
  rw [clearEach?_eq_foldl h]
  refine congrArg some (congrArg VersionMap.mk (Std.ExtTreeMap.ext_getElem? fun key ↦ ?_))
  have hnodup : keys.Nodup := hkeys.nodup_iff.mpr Std.ExtTreeMap.nodup_keys
  obtain ⟨hmem, hother⟩ := getElem?_foldl_clear hnodup m live key
  rw [Std.ExtTreeMap.getElem?_filterMap']
  by_cases hin : key ∈ keys
  · exact hmem hin
  · have hnone : m.chains[key]? = none := Std.ExtTreeMap.getElem?_eq_none fun hkey ↦
      hin (hkeys.mem_iff.mpr (Std.ExtTreeMap.mem_keys.mpr hkey))
    rw [hother hin, hnone, Option.bind_none]

/-- No chain refuses a write, whichever keys are set or cleared, and in whatever order. -/
structure TakesWrites (m : VersionMap κ α) (live : Generation) : Prop where
  set?_eq : ∀ key value, m.set? live key value = some (m.set live key value)
  clear?_eq : ∀ key, m.clear? live key = some (m.clear live key)
  clearEach?_eq : ∀ keys, keys.Perm m.chains.keys →
    m.clearEach? live keys = some (m.clearAll live)

theorem HeadsLE.takesWrites (h : m.HeadsLE live) : m.TakesWrites live :=
  ⟨VersionMap.set?_eq h, VersionMap.clear?_eq h, fun _ hkeys ↦ VersionMap.clearEach?_eq h hkeys⟩

end VersionMap

/-! ### The tables of a store -/

/-- The versions of every key of every table are in order. -/
structure ContentHistory.InOrder (h : ContentHistory) (live : Generation) : Prop where
  nodes : h.nodes.InOrder live
  roots : h.roots.InOrder live
  types : h.types.InOrder live
  typesByHandle : h.typesByHandle.InOrder live

namespace ContentHistory

variable {h : ContentHistory} {live floor : Generation}

theorem inOrder_empty : empty.InOrder live :=
  ⟨VersionMap.inOrder_empty, VersionMap.inOrder_empty, VersionMap.inOrder_empty,
    VersionMap.inOrder_empty⟩

theorem InOrder.mono (hh : h.InOrder live) {later : Generation} (hle : live ≤ later) :
    h.InOrder later :=
  ⟨hh.nodes.mono hle, hh.roots.mono hle, hh.types.mono hle, hh.typesByHandle.mono hle⟩

theorem InOrder.prune (hh : h.InOrder live) : (h.prune floor).InOrder live :=
  ⟨hh.nodes.prune, hh.roots.prune, hh.types.prune, hh.typesByHandle.prune⟩

end ContentHistory

/-! ### Writers that check every write -/

/-- A writer that stops for good when a chain refuses a write; one that has stopped has no state. -/
structure CheckedWriter where
  running? : Option ContentWriter

namespace CheckedWriter

/-- Carries out a write unless a chain refuses it. -/
def attempt (c : CheckedWriter) (write? : ContentWriter → Option ContentHistory) : CheckedWriter :=
  ⟨c.running?.bind fun w ↦ (write? w).map fun history ↦ { w with history }⟩

instance : LiveTables CheckedWriter where
  node? c id := c.running?.bind (LiveTables.node? · id)
  setNode c id n := c.attempt fun w ↦
    (w.history.nodes.set? w.generation id n).map fun nodes ↦ { w.history with nodes }
  clearNode c id := c.attempt fun w ↦
    (w.history.nodes.clear? w.generation id).map fun nodes ↦ { w.history with nodes }
  setRoot c id := c.attempt fun w ↦
    (w.history.roots.set? w.generation id ()).map fun roots ↦ { w.history with roots }
  clearRoot c id := c.attempt fun w ↦
    (w.history.roots.clear? w.generation id).map fun roots ↦ { w.history with roots }
  clearTree c := c.attempt fun w ↦ do
    let nodes ← w.history.nodes.clearEach? w.generation w.history.nodes.chains.keys
    let roots ← w.history.roots.clearEach? w.generation w.history.roots.chains.keys
    return { w.history with nodes, roots }
  type? c id := c.running?.bind (LiveTables.type? · id)
  setType c id t := c.attempt fun w ↦
    (w.history.types.set? w.generation id t).map fun types ↦ { w.history with types }
  clearType c id := c.attempt fun w ↦
    (w.history.types.clear? w.generation id).map fun types ↦ { w.history with types }
  types c := (c.running?.map LiveTables.types).getD []
  typeNamed? c handle := c.running?.bind (LiveTables.typeNamed? · handle)
  setHandle c handle t := c.attempt fun w ↦
    (w.history.typesByHandle.set? w.generation handle t).map fun typesByHandle ↦
      { w.history with typesByHandle }
  clearHandle c handle := c.attempt fun w ↦
    (w.history.typesByHandle.clear? w.generation handle).map fun typesByHandle ↦
      { w.history with typesByHandle }
  index c := (c.running?.map ContentWriter.index).getD TypeIndex.empty
  setIndex c index := ⟨c.running?.map fun w ↦ { w with index }⟩

/-- A writer whose tables are in order at the live generation, and one that checks every write and
has come to the same state. -/
structure Checks (live : Generation) (w : ContentWriter) (c : CheckedWriter) : Prop where
  running?_eq : c.running? = some w
  generation_eq : w.generation = live
  inOrder : w.history.InOrder live

variable {live : Generation} {w : ContentWriter} {c : CheckedWriter}

/-- A write that tables in order do not refuse, and that leaves them in order, brings both to the
same state. -/
theorem Checks.attempt (h : Checks live w c) {write? : ContentWriter → Option ContentHistory}
    {write : ContentHistory → ContentHistory}
    (hwrite : w.history.InOrder w.generation →
      write? w = some (write w.history) ∧ (write w.history).InOrder w.generation) :
    Checks live (w.modify write) (c.attempt write?) := by
  obtain rfl := h.generation_eq
  obtain ⟨hdone, hinOrder⟩ := hwrite h.inOrder
  refine ⟨?_, rfl, hinOrder⟩
  rw [CheckedWriter.attempt, h.running?_eq, Option.bind_some, hdone]
  rfl

/-- A writer and one that checks every write go through every edit alike. -/
theorem simulation_checks (live : Generation) : TableSimulation (Checks live) where
  node? h id := by simp only [LiveTables.node?, h.running?_eq, Option.bind_some]
  type? h id := by simp only [LiveTables.type?, h.running?_eq, Option.bind_some]
  typeNamed? h handle := by simp only [LiveTables.typeNamed?, h.running?_eq, Option.bind_some]
  types h := by simp only [LiveTables.types, h.running?_eq, Option.map_some, Option.getD_some]
  index h := by simp only [LiveTables.index, h.running?_eq, Option.map_some, Option.getD_some]
  setIndex h i := ⟨by simp only [LiveTables.setIndex, h.running?_eq, Option.map_some],
    h.generation_eq, h.inOrder⟩
  setNode h id n := h.attempt fun ho ↦
    ⟨congrArg (Option.map _) (VersionMap.set?_eq ho.nodes.headsLE id n),
      { ho with nodes := ho.nodes.set n }⟩
  clearNode h id := h.attempt fun ho ↦
    ⟨congrArg (Option.map _) (VersionMap.clear?_eq ho.nodes.headsLE id),
      { ho with nodes := ho.nodes.clear }⟩
  setRoot h id := h.attempt fun ho ↦
    ⟨congrArg (Option.map _) (VersionMap.set?_eq ho.roots.headsLE id ()),
      { ho with roots := ho.roots.set () }⟩
  clearRoot h id := h.attempt fun ho ↦
    ⟨congrArg (Option.map _) (VersionMap.clear?_eq ho.roots.headsLE id),
      { ho with roots := ho.roots.clear }⟩
  clearTree h := h.attempt fun ho ↦ by
    refine ⟨?_, { ho with nodes := ho.nodes.clearAll, roots := ho.roots.clearAll }⟩
    rw [VersionMap.clearEach?_eq ho.nodes.headsLE (List.Perm.refl _),
      VersionMap.clearEach?_eq ho.roots.headsLE (List.Perm.refl _)]
    rfl
  setType h id t := h.attempt fun ho ↦
    ⟨congrArg (Option.map _) (VersionMap.set?_eq ho.types.headsLE id t),
      { ho with types := ho.types.set t }⟩
  clearType h id := h.attempt fun ho ↦
    ⟨congrArg (Option.map _) (VersionMap.clear?_eq ho.types.headsLE id),
      { ho with types := ho.types.clear }⟩
  setHandle h handle t := h.attempt fun ho ↦
    ⟨congrArg (Option.map _) (VersionMap.set?_eq ho.typesByHandle.headsLE handle t),
      { ho with typesByHandle := ho.typesByHandle.set t }⟩
  clearHandle h handle := h.attempt fun ho ↦
    ⟨congrArg (Option.map _) (VersionMap.clear?_eq ho.typesByHandle.headsLE handle),
      { ho with typesByHandle := ho.typesByHandle.clear }⟩

end CheckedWriter

namespace ContentStore

/-- Carries out an operation of a writer with every write checked; nothing if a chain refuses
one. -/
def perform? (s : ContentStore) (call : WriterCall) : Option (ContentWriter × WriterAnswer) :=
  let (c, answer) := call.run (CheckedWriter.mk (some s.writer))
  c.running?.map (·, answer)

variable {s : ContentStore}

/-- An operation leaves the versions in order, and no chain refuses any of its writes. -/
theorem perform?_eq (h : s.history.InOrder s.clock.live) (call : WriterCall) :
    s.perform? call = some ((call.run s.writer).1, (s.perform call).2) ∧
      (s.perform call).1.history.InOrder s.clock.live := by
  have hstart : CheckedWriter.Checks s.clock.live s.writer ⟨some s.writer⟩ := ⟨rfl, rfl, h⟩
  obtain ⟨hchecks, hanswer⟩ := (CheckedWriter.simulation_checks s.clock.live).run hstart call
  obtain ⟨hhistory, -, hperformed, -⟩ := s.perform_eq call
  constructor
  · simp only [perform?, hchecks.running?_eq, Option.map_some, ← hanswer, hperformed]
  · exact hhistory ▸ hchecks.inOrder

end ContentStore

/-! ### Runs -/

theorem RecordedStore.Reachable.inOrder {kind : ItemKind} {options : StoreOptions}
    {r : RecordedStore} (hr : Reachable kind options r) :
    r.store.history.InOrder r.clock.live := by
  obtain ⟨s, hs, hsteps⟩ := hr
  induction hsteps with
  | refl =>
    obtain rfl := ContentStore.eq_of_create hs
    exact ContentHistory.inOrder_empty
  | @tail r u _ hstep ih =>
    have hissue : r.store.history.InOrder r.clock.issue.1.live :=
      ih.mono (Clock.live_issue r.clock).ge
    cases hstep with
    | openSection _ => exact ih.mono (Clock.live_le_openSection _)
    | perform _ call =>
      have hclock : (r.store.perform call).1.clock = r.clock := (r.store.perform_eq call).2.2.2
      exact (congrArg Clock.live hclock).symm ▸ (ContentStore.perform?_eq ih call).2
    | snapshot =>
      rcases ContentStore.snapshot_eq r.store with hissued | hcollected
      · rw [hissued]
        exact hissue
      · rw [hcollected]
        exact hissue.prune
    | collect => exact ih.prune
    | _ => exact ih

section Dictionaries

variable {κ α : Type} [Ord κ] [Std.TransOrd κ] [Std.LawfulEqOrd κ]

theorem Dictionary.inOrder_edit {d : Dictionary κ α} (h : d.items.InOrder d.clock.live)
    (e : MapEdit κ α) : (d.edit e).items.InOrder d.clock.live := by
  cases e with
  | set key value => exact h.set value
  | clear key => exact h.clear
  | clearAll => exact h.clearAll

theorem RecordedDictionary.Reachable.inOrder {options : StoreOptions} {r : RecordedDictionary κ α}
    (hr : Reachable options r) : r.dictionary.items.InOrder r.clock.live := by
  obtain ⟨d, hd, hsteps⟩ := hr
  induction hsteps with
  | refl =>
    obtain rfl := Dictionary.eq_of_create hd
    exact VersionMap.inOrder_empty
  | @tail r u _ hstep ih =>
    have hissue : r.dictionary.items.InOrder r.clock.issue.1.live :=
      ih.mono (Clock.live_issue r.clock).ge
    cases hstep with
    | openSection _ => exact ih.mono (Clock.live_le_openSection _)
    | edit _ e =>
      have hclock : (r.dictionary.edit e).clock = r.clock := by cases e <;> rfl
      exact (congrArg Clock.live hclock).symm ▸ Dictionary.inOrder_edit ih e
    | snapshot =>
      rcases Dictionary.snapshot_eq r.dictionary with hissued | hcollected
      · rw [hissued]
        exact hissue
      · rw [hcollected]
        exact hissue.prune
    | collect => exact ih.prune
    | _ => exact ih

variable (κ α) in
/-- In every state of a run of a dictionary or a store the versions of every key of every table are
in order: their generations fall strictly from the newest on, none is newer than the live
generation, and no key has nothing but a deletion. So no chain refuses a write: whatever is written
next, and whatever operation a writer carries out next, runs to its end. -/
theorem chains_inOrder :
    (∀ options (r : RecordedDictionary κ α), RecordedDictionary.Reachable options r →
      r.dictionary.items.InOrder r.clock.live ∧ r.dictionary.items.TakesWrites r.clock.live) ∧
    ∀ kind options r, RecordedStore.Reachable kind options r →
      r.store.history.InOrder r.clock.live ∧
        ∀ call, ∃ w, r.store.perform? call = some (w, (r.store.perform call).2) ∧
          (r.store.perform call).1.history = w.history ∧
          (r.store.perform call).1.index = w.index := by
  refine ⟨fun options r hr ↦ ⟨hr.inOrder, hr.inOrder.headsLE.takesWrites⟩,
    fun kind options r hr ↦ ⟨hr.inOrder, fun call ↦ ?_⟩⟩
  obtain ⟨hhistory, hindex, -, -⟩ := r.store.perform_eq call
  exact ⟨_, (ContentStore.perform?_eq hr.inOrder call).1, hhistory, hindex⟩

end Dictionaries

theorem RecordedDictionary.reachable_keyCleared :
    Reachable StoreOptions.default keyCleared :=
  ⟨_, rfl, .tail (.tail (.tail (.tail (.tail (.tail (.tail (.tail (.tail .refl (.openSection rfl))
    (.edit rfl (.set 1 10))) (.closeSection rfl)) .snapshot) (.openSection rfl))
    (.edit rfl (.clear 1))) (.closeSection rfl)) .snapshot) .collect⟩

theorem RecordedStore.reachable_pageRemoved :
    Reachable .content StoreOptions.default pageRemoved := by
  obtain ⟨s, hs, hsteps⟩ := reachable_pagePinned
  exact ⟨s, hs, hsteps.trans steps_pageRemoved⟩

/-- A key and a page that were removed while the first pin was held have two versions each, and both
can be stored anew. -/
theorem chains_inOrder_removed :
    RecordedDictionary.keyCleared.dictionary.items.generations 1 = [2, 1] ∧
      RecordedDictionary.keyCleared.dictionary.items.InOrder 2 ∧
      RecordedDictionary.keyCleared.dictionary.items.TakesWrites 2 ∧
      RecordedStore.pageRemoved.store.history.nodes.generations ⟨1⟩ = [2, 1] ∧
      RecordedStore.pageRemoved.store.history.InOrder 2 ∧
      ∃ w, RecordedStore.pageRemoved.store.perform? (.set RecordedStore.page) =
        some (w, .outcome .inserted) := by
  obtain ⟨horder, hwrites⟩ :=
    (chains_inOrder Nat Nat).1 _ _ RecordedDictionary.reachable_keyCleared
  obtain ⟨hstore, hperform⟩ := (chains_inOrder Nat Nat).2 _ _ _ RecordedStore.reachable_pageRemoved
  obtain ⟨w, hw, -, -⟩ := hperform (.set RecordedStore.page)
  have hanswer : (RecordedStore.pageRemoved.store.perform (.set RecordedStore.page)).2 =
      .outcome .inserted := by decide +kernel
  exact ⟨by decide +kernel, horder, hwrites, by decide +kernel, hstore, w, hanswer ▸ hw⟩

end VersionedContent
