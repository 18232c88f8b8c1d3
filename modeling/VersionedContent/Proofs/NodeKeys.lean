import VersionedContent.Proofs.WriterTranscripts

/-!
# Where node keys come from

A store counts the keys of its table of nodes, with those of deletions that are not yet collected.
An edit stores nodes in two ways: it stores that of a kit, or it rewrites one that is there. All
other writes clear nodes or leave them alone, and collection passes only take keys away. So in every
state of a run each node key is the id of a kit that some operation of the run was given
(`StoreTranscript.Reachable.exists_kit_of_mem_nodes`).
-/

set_option autoImplicit false

namespace VersionedContent

/-- The kits that an operation is given. -/
def WriterCall.kits : WriterCall → List ContentKit
  | .set k => [k]
  | .setAll ks => ks
  | .setBranch _ ks => ks
  | .updateTypes _ _ ks => ks
  | _ => []

/-! ### Properties that writes of entries keep -/

/-- A property of states that the write of any entry keeps, a node being stored only under certain
ids or where there is one. -/
structure EntryInvariant {σ : Type} [LiveTables σ] (ids : ContentId → Prop) (P : σ → Prop) :
    Prop where
  setNode : ∀ {s}, P s → ∀ {id} n, ids id ∨ (∃ m, LiveTables.node? s id = some m) →
    P (LiveTables.setNode s id n)
  clearNode : ∀ {s}, P s → ∀ id, P (LiveTables.clearNode s id)
  setRoot : ∀ {s}, P s → ∀ id, P (LiveTables.setRoot s id)
  clearRoot : ∀ {s}, P s → ∀ id, P (LiveTables.clearRoot s id)
  clearTree : ∀ {s : σ}, P s → P (LiveTables.clearTree s)
  setType : ∀ {s}, P s → ∀ id type, P (LiveTables.setType s id type)
  clearType : ∀ {s}, P s → ∀ id, P (LiveTables.clearType s id)
  setHandle : ∀ {s}, P s → ∀ handle type, P (LiveTables.setHandle s handle type)
  clearHandle : ∀ {s}, P s → ∀ handle, P (LiveTables.clearHandle s handle)
  setIndex : ∀ {s}, P s → ∀ i, P (LiveTables.setIndex s i)

namespace EntryInvariant

variable {σ : Type} [LiveTables σ] {ids : ContentId → Prop} {P : σ → Prop} {s : σ}

/-! ### Edits of the tree -/

theorem attach (inv : EntryInvariant ids P) (h : P s) (id : ContentId)
    (parent : Option ContentId) : P (Edit.attach s id parent) := by
  unfold Edit.attach
  split
  · exact inv.setRoot h id
  · split
    · next hn => exact inv.setNode h _ (.inr ⟨_, hn⟩)
    · exact h

theorem detach (inv : EntryInvariant ids P) (h : P s) (id : ContentId)
    (parent : Option ContentId) : P (Edit.detach s id parent) := by
  unfold Edit.detach
  split
  · exact inv.clearRoot h id
  · split
    · next hn => exact inv.setNode h _ (.inr ⟨_, hn⟩)
    · exact h

theorem store (inv : EntryInvariant ids P) (h : P s) (previous : Option ContentNode)
    {n : ContentNode} (hid : ids n.id) : P (Edit.store s previous n) :=
  inv.setNode (inv.setIndex h _) n (.inl hid)

theorem place (inv : EntryInvariant ids P) (h : P s) {k : ContentKit} (hid : ids k.id)
    (type : ContentType) : P (Edit.place s k type).1 := by
  have hstored : ∀ previous children, P (Edit.store s previous (.ofKit k type children)) :=
    fun previous _ ↦ inv.store h previous hid
  unfold Edit.place
  split
  · exact inv.attach (hstored _ _) _ _
  · dsimp only
    split_ifs
    · exact hstored _ _
    · exact inv.attach (inv.detach (hstored _ _) _ _) _ _

theorem set (inv : EntryInvariant ids P) (h : P s) {k : ContentKit} (hid : ids k.id) :
    P (Edit.set s k).1 := by
  unfold Edit.set
  split
  · exact h
  · exact inv.place h hid _

theorem forget (inv : EntryInvariant ids P) (h : P s) (n : ContentNode) : P (Edit.forget s n) :=
  inv.clearNode (inv.setIndex h _) n.id

theorem removeSubtree (inv : EntryInvariant ids P) (h : P s) (id : ContentId) :
    P (Edit.removeSubtree s id).1 := by
  unfold Edit.removeSubtree
  split
  · exact h
  · exact foldl_keeps (P := P) (fun _ n hs ↦ inv.forget hs n) _ (inv.detach h _ _)

theorem setOrdered (inv : EntryInvariant ids P) (h : P s) {ks : List ContentKit}
    (hids : ∀ k ∈ ks, ids k.id) : P (Edit.setOrdered s ks).1 := by
  rw [Edit.setOrdered, Edit.setEach_fst]
  exact List.foldlRecOn _ _ h fun _ hs k hk ↦ inv.set hs (hids k (List.mem_mergeSort.mp hk))

/-! ### Changes of content types -/

theorem putType (inv : EntryInvariant ids P) (h : P s) (type : ContentType) :
    P (Retype.putType s type) := by
  have hput : ∀ {t : σ}, P t →
      P (LiveTables.setHandle (LiveTables.setType t type.id type) type.handle type) :=
    fun ht ↦ inv.setHandle (inv.setType ht _ _) _ _
  unfold Retype.putType
  split
  · split_ifs
    · exact hput h
    · exact hput (inv.clearHandle h _)
  · exact hput h

theorem removeType (inv : EntryInvariant ids P) (h : P s) (id : ContentTypeId) :
    P (Retype.removeType s id).1 := by
  have hremoved : P (Retype.removeEach (LiveTables.setIndex s
      ((LiveTables.index s).eraseType id)) ((LiveTables.index s).nodesOf id)).1 := by
    rw [Retype.removeEach_fst]
    exact foldl_keeps (P := P) (fun _ x hs ↦ inv.removeSubtree hs x) _ (inv.setIndex h _)
  unfold Retype.removeType Retype.dropType
  dsimp only
  split
  · exact hremoved
  · exact inv.clearType (inv.clearHandle hremoved _) id

theorem rebindNode (inv : EntryInvariant ids P) (h : P s) (type : ContentType) (id : ContentId) :
    P (Retype.rebindNode s type id).1 := by
  unfold Retype.rebindNode
  split
  · next hn => exact inv.setNode h _ (.inr ⟨_, hn⟩)
  · exact h

theorem rebindNodes (inv : EntryInvariant ids P) (h : P s) (type : ContentType)
    (except : List ContentId) : P (Retype.rebindNodes s type except).1 := by
  rw [Retype.rebindNodes_fst]
  exact foldl_keeps (P := P) (fun _ id hs ↦ inv.rebindNode hs type id) _ h

theorem updateTypes (inv : EntryInvariant ids P) (h : P s) (removed : List ContentTypeId)
    (refreshed : List ContentType) {ks : List ContentKit} (hids : ∀ k ∈ ks, ids k.id) :
    P (Retype.updateTypes s removed refreshed ks).1 := by
  have hremoved : P (Retype.removeTypes s removed).1 := by
    rw [Retype.removeTypes_fst]
    exact foldl_keeps (P := P) (fun _ id hs ↦ inv.removeType hs id) removed h
  have hput : P (refreshed.foldl Retype.putType (Retype.removeTypes s removed).1) :=
    foldl_keeps (P := P) (fun _ type hs ↦ inv.putType hs type) refreshed hremoved
  unfold Retype.updateTypes
  dsimp only
  rw [Retype.rebindAll_fst]
  refine foldl_keeps (P := P) (fun _ type hs ↦ inv.rebindNodes hs type _) refreshed ?_
  exact inv.setOrdered hput fun k hk ↦ hids k (List.mem_of_mem_filter hk)

/-- An operation whose kits are for the ids in question keeps what the writes of entries keep. -/
theorem run (inv : EntryInvariant ids P) (h : P s) (call : WriterCall)
    (hids : ∀ k ∈ call.kits, ids k.id) : P (call.run s).1 := by
  cases call with
  | set k => exact inv.set h (hids k (List.mem_singleton_self k))
  | clear id => exact inv.removeSubtree h id
  | setAll ks => exact inv.setOrdered (inv.setIndex (inv.clearTree h) _) hids
  | setBranch root ks => exact inv.setOrdered (inv.removeSubtree h root) hids
  | setAllTypes types => exact inv.updateTypes h _ types hids
  | updateTypes removed refreshed ks => exact inv.updateTypes h removed refreshed hids
  | updateDataTypes ids resolve r => exact inv.updateTypes h [] _ hids

end EntryInvariant

/-! ### Keys of one table -/

namespace VersionMap

variable {κ α : Type} [Ord κ] [Std.TransOrd κ]
variable {m : VersionMap κ α} {live floor : Generation} {key other : κ}

theorem mem_chains_clearAll (h : other ∈ (m.clearAll live).chains) : other ∈ m.chains :=
  (Std.ExtTreeMap.mem_filterMap.mp h).1

theorem mem_chains_prune (h : other ∈ (m.prune floor).chains) : other ∈ m.chains :=
  (Std.ExtTreeMap.mem_filterMap.mp h).1

/-- What has a version in a generation or for the writer has a key. -/
theorem mem_chains_of_read {value : α} {read : Chain α → Option α}
    (h : m.chains[key]?.bind read = some value) : key ∈ m.chains := by
  obtain ⟨c, hc, -⟩ := Option.bind_eq_some_iff.mp h
  rw [Std.ExtTreeMap.mem_iff_isSome_getElem?, hc]
  rfl

variable [Std.LawfulEqOrd κ]

theorem mem_chains_set {value : α} (h : other ∈ (m.set live key value).chains) :
    other = key ∨ other ∈ m.chains := by
  rw [set, Std.ExtTreeMap.mem_alter] at h
  split_ifs at h with heq
  · exact Or.inl (Std.LawfulEqOrd.eq_of_compare heq).symm
  · exact Or.inr h

theorem mem_chains_clear (h : other ∈ (m.clear live key).chains) : other ∈ m.chains := by
  rw [clear, Std.ExtTreeMap.mem_alter] at h
  split_ifs at h with heq
  · obtain ⟨c, hc⟩ := Option.isSome_iff_exists.mp h
    obtain ⟨old, hold, -⟩ := Option.bind_eq_some_iff.mp hc
    rw [← Std.LawfulEqOrd.eq_of_compare heq, Std.ExtTreeMap.mem_iff_isSome_getElem?, hold]
    rfl
  · exact h

end VersionMap

/-! ### Keys of a store -/

/-- The table of nodes has keys of certain ids only. -/
def ContentHistory.NodeKeysIn (h : ContentHistory) (ids : ContentId → Prop) : Prop :=
  ∀ id ∈ h.nodes.chains, ids id

/-- A writer gives the table of nodes no key but for a node that it stores. -/
theorem ContentWriter.nodeKeys_invariant (ids : ContentId → Prop) :
    EntryInvariant ids fun w : ContentWriter ↦ w.history.NodeKeysIn ids where
  setNode h x n hx other hother := by
    obtain rfl | hold := VersionMap.mem_chains_set hother
    · obtain hnew | ⟨m, hm⟩ := hx
      · exact hnew
      · exact h _ (VersionMap.mem_chains_of_read hm)
    · exact h other hold
  clearNode h _ x hx := h x (VersionMap.mem_chains_clear hx)
  setRoot h _ := h
  clearRoot h _ := h
  clearTree h x hx := h x (VersionMap.mem_chains_clearAll hx)
  setType h _ _ := h
  clearType h _ := h
  setHandle h _ _ := h
  clearHandle h _ := h
  setIndex h _ := h

theorem ContentHistory.NodeKeysIn.perform {s : ContentStore} {ids : ContentId → Prop}
    (h : s.history.NodeKeysIn ids) (call : WriterCall) (hids : ∀ k ∈ call.kits, ids k.id) :
    (s.perform call).1.history.NodeKeysIn ids := by
  rw [(s.perform_eq call).1]
  exact (ContentWriter.nodeKeys_invariant ids).run (s := s.writer) h call hids

theorem ContentHistory.NodeKeysIn.prune {h : ContentHistory} {ids : ContentId → Prop}
    (hkeys : h.NodeKeysIn ids) (floor : Generation) : (h.prune floor).NodeKeysIn ids :=
  fun id hid ↦ hkeys id (VersionMap.mem_chains_prune hid)

namespace StoreTranscript

variable {kind : ItemKind} {options : StoreOptions} {t u : StoreTranscript}

theorem nodeKeys_step (ids : ContentId → Prop) (h : t.store.history.NodeKeysIn ids)
    (hstep : Step t u) (hids : ∀ call ∈ u.calls, ∀ k ∈ call.kits, ids k.id) :
    u.store.history.NodeKeysIn ids := by
  cases hstep with
  | perform _ call => exact h.perform call (hids call (by simp))
  | setAllTypes _ _ => exact h.perform _ (by simp [WriterCall.kits])
  | snapshot =>
    rcases ContentStore.snapshot_eq t.store with hissued | hcollected
    · exact (congrArg (ContentHistory.NodeKeysIn ·.history ids) hissued).mpr h
    · exact (congrArg (ContentHistory.NodeKeysIn ·.history ids) hcollected).mpr (h.prune _)
  | collect => exact h.prune _
  | _ => exact h

theorem Step.calls_prefix (hstep : Step t u) : t.calls <+: u.calls := by
  cases hstep with
  | perform _ call => exact ⟨[call], (calls_answered t call call).symm⟩
  | setAllTypes _ _ => exact ⟨_, (calls_answered t _ _).symm⟩
  | _ => exact List.prefix_rfl

/-- In every state of a run each node key, those of deletions included, is the id of a kit that
some operation was given. -/
theorem Reachable.exists_kit_of_mem_nodes (ht : Reachable kind options t) {id : ContentId}
    (hid : id ∈ t.store.history.nodes.chains) : ∃ call ∈ t.calls, ∃ k ∈ call.kits, k.id = id := by
  obtain ⟨s, hs, hsteps⟩ := ht
  induction hsteps generalizing id with
  | refl =>
    obtain rfl := ContentStore.eq_of_create hs
    exact absurd hid Std.ExtTreeMap.not_mem_empty
  | tail _ hstep ih =>
    refine nodeKeys_step (fun id ↦ ∃ call ∈ _, ∃ k ∈ WriterCall.kits call, k.id = id)
      (fun id hid ↦ ?_) hstep (fun call hcall k hk ↦ ⟨call, hcall, k, hk, rfl⟩) id hid
    obtain ⟨call, hcall, hk⟩ := ih hid
    exact ⟨call, hstep.calls_prefix.subset hcall, hk⟩

end StoreTranscript

end VersionedContent
