import VersionedContent.Proofs.WriterTranscripts

/-!
# The nodes of a type

A writer finds the nodes of a content type through an index that every edit mends by hand. In every
state of a run the index gives the ids of exactly the live nodes of the type, in ascending order,
and no live node is of a type that is not defined (`RecordedStore.Reachable.nodesOf_exact`). The
same holds in every state that an operation passes through between two of its edits. A stale node
is no exception: what it holds is another definition with the id of a defined type.
-/

set_option autoImplicit false

namespace VersionedContent

theorem TypeIndex.pairwise_nodesOf (i : TypeIndex) (t : ContentTypeId) :
    (i.nodesOf t).Pairwise fun a b ↦ a.val < b.val := by
  unfold nodesOf
  cases i.entries[t]? with
  | none => exact List.Pairwise.nil
  | some ids =>
    have hordered := Std.ExtTreeSet.ordered_toList (t := ids)
    exact hordered.imp fun {a b} hlt ↦ compareOfLessAndEq_eq_lt.mp hlt

/-- The index gives the ids of exactly the nodes of each type, in ascending order, and every type
that has nodes is defined. -/
structure TypesExact {σ : Type} [LiveTables σ] (s : σ) : Prop where
  pairwise_nodesOf : ∀ t, ((LiveTables.index s).nodesOf t).Pairwise fun a b ↦ a.val < b.val
  mem_nodesOf_iff : ∀ t id, id ∈ (LiveTables.index s).nodesOf t ↔
    ∃ n, LiveTables.node? s id = some n ∧ n.contentType.id = t
  defined : ∀ t, (LiveTables.index s).nodesOf t ≠ [] → ∃ d, LiveTables.type? s t = some d

/-- What has the same reads has an index that is as exact. -/
theorem TypesExact.congr {σ τ : Type} [LiveTables σ] [LiveTables τ] {s : σ} {t : τ}
    (h : TypesExact s) (hreads : ReadsAgree s t) : TypesExact t where
  pairwise_nodesOf u := hreads.nodesOf u ▸ h.pairwise_nodesOf u
  mem_nodesOf_iff u id := by
    rw [← hreads.nodesOf, ← hreads.node?]
    exact h.mem_nodesOf_iff u id
  defined u := by
    rw [← hreads.nodesOf, ← hreads.type?]
    exact h.defined u

namespace LiveContent

variable {s u : LiveContent} {id : ContentId} {t : ContentTypeId}

/-- The index is exact, and the type of every node is defined. -/
structure Typed (s : LiveContent) : Prop where
  indexed : s.Indexed
  defined : ∀ {id t}, s.view.typeOf id = some t → ∃ d, s.view.type? t = some d

/-- An edit that gives no node another type and takes no definition away keeps types defined. -/
theorem Typed.congr (h : s.Typed) (hindexed : u.Indexed) (htypes : u.view.type? = s.view.type?)
    (hnodes : ∀ id t, u.view.typeOf id = some t → s.view.typeOf id = some t) : u.Typed :=
  ⟨hindexed, fun hid ↦ by rw [htypes]; exact h.defined (hnodes _ _ hid)⟩

theorem typed_empty : LiveContent.empty.Typed := by
  refine ⟨indexed_empty, fun {id t} hid ↦ ?_⟩
  have hnone : LiveContent.empty.view.node? id = none := Std.ExtTreeMap.getElem?_empty
  simp [ContentView.typeOf, ContentView.bindingOf, hnone] at hid

theorem Typed.set (h : s.Typed) (k : ContentKit) : (Edit.set s k).1.Typed := by
  refine ⟨h.indexed.set k, fun {id t} hid ↦ ?_⟩
  rw [type?_of_typeTables (typeTables_set s k)]
  rcases set_cases s k with ⟨-, hsame⟩ | ⟨-, d, hd, hbinding⟩
  · exact h.defined (hsame ▸ hid)
  · rw [ContentView.typeOf, hbinding] at hid
    split_ifs at hid with heq
    · -- the definition is stored under the type of the kit, which is its own id
      obtain rfl : d.id = t := Option.some.inj hid
      exact ⟨d, (h.indexed.type_id_eq hd).symm ▸ hd⟩
    · exact h.defined hid

theorem Typed.removeSubtree (h : s.Typed) (id : ContentId) :
    (Edit.removeSubtree s id).1.Typed := by
  refine h.congr (h.indexed.removeSubtree id) (type?_of_typeTables (typeTables_removeSubtree s id))
    fun x t hx ↦ ?_
  by_cases hbelow : s.view.Below id x
  · simp [ContentView.typeOf, h.indexed.linked.bindingOf_removeSubtree_of_below hbelow] at hx
  · rwa [ContentView.typeOf, h.indexed.linked.bindingOf_removeSubtree hbelow] at hx

/-- A type is removed after its nodes, so no node is left without a definition. -/
theorem Typed.removeType (h : s.Typed) (t : ContentTypeId) : (Retype.removeType s t).1.Typed := by
  refine ⟨h.indexed.removeType t, fun {x u} hx ↦ ?_⟩
  obtain ⟨hnodes, -, -, htypes⟩ := dropType_spec (s.withoutNodesOf t) t
  rw [removeType_fst] at hx ⊢
  have hkept : (s.withoutNodesOf t).view.typeOf x = some u := by
    rwa [ContentView.typeOf, ContentView.bindingOf, ContentView.node?, hnodes] at hx
  have hne : u ≠ t := fun heq ↦ h.indexed.typeOf_withoutNodesOf_ne t x (heq ▸ hkept)
  rw [htypes, Function.update_of_ne hne, type?_of_typeTables (typeTables_withoutNodesOf s t)]
  rcases h.indexed.bindingOf_withoutNodesOf t x with hgone | ⟨-, hsame⟩
  · simp [ContentView.typeOf, hgone] at hkept
  · rw [ContentView.typeOf, hsame] at hkept
    exact h.defined hkept

theorem Typed.putType (h : s.Typed) (d : ContentType) : (Retype.putType s d).Typed := by
  refine ⟨h.indexed.putType d, fun {x t} hx ↦ ?_⟩
  obtain ⟨hnodes, -, -, htypes⟩ := putType_spec s d
  rw [ContentView.typeOf, ContentView.bindingOf, ContentView.node?, hnodes] at hx
  rw [htypes, Function.update_apply]
  split_ifs
  · exact ⟨d, rfl⟩
  · exact h.defined hx

theorem Typed.rebindNodes (h : s.Typed) (d : ContentType) (except : List ContentId) :
    (Retype.rebindNodes s d except).1.Typed :=
  h.congr (h.indexed.rebindNodes d except)
    (type?_of_typeTables (typeTables_rebindNodes s d except)) fun x t hx ↦ by
      rwa [h.indexed.typeOf_rebindNodes] at hx

/-- Every operation of a writer keeps the types of all nodes defined. -/
theorem typed_invariant : EditInvariant Typed where
  set h k := h.set k
  removeSubtree h id := h.removeSubtree id
  clearTree h := h.congr (indexed_invariant.clearTree h.indexed) rfl fun id t hid ↦ by
    rw [ContentView.typeOf, ContentView.bindingOf,
      show ContentView.node? _ id = none from Std.ExtTreeMap.getElem?_empty] at hid
    contradiction
  removeType h t := h.removeType t
  putType h d := h.putType d
  rebindNodes h d except := h.rebindNodes d except

theorem Typed.typesExact (h : s.Typed) : TypesExact s where
  pairwise_nodesOf := s.index.pairwise_nodesOf
  mem_nodesOf_iff t id := by
    rw [show (LiveTables.index s) = s.index from rfl, h.indexed.lists t, ContentView.typeOf,
      ContentView.bindingOf, Option.map_map, Option.map_eq_some_iff]
    rfl
  defined t hsome := by
    obtain ⟨id, hid⟩ := List.exists_mem_of_ne_nil _ hsome
    exact h.defined ((h.indexed.lists t id).mp hid)

end LiveContent

namespace RecordedStore

variable {r : RecordedStore}

/-- In every state of a run the index gives the ids of exactly the live nodes of each type, in
ascending order, and every type that has live nodes is defined. So it is in every state that an
operation passes through there. -/
theorem Reachable.nodesOf_exact {kind : ItemKind} {options : StoreOptions}
    (hr : Reachable kind options r) :
    TypesExact r.store.writer ∧ ∀ l, Edits r.store.live l → TypesExact l := by
  have htyped := (hr.keeps LiveContent.typed_invariant LiveContent.typed_empty).1
  exact ⟨htyped.typesExact.congr r.store.writer.readsAgree_live.symm,
    fun l hedits ↦ (LiveContent.typed_invariant.edits htyped hedits).typesExact⟩

/-- A second page below the stranded one. -/
def pageJoined : RecordedStore :=
  let below : ContentKit := { page with id := ⟨2⟩, parentId := some ⟨1⟩, level := 2 }
  { pageStranded with store := (pageStranded.store.perform (.set below)).1 }

/-- The index gives both pages, though the first one is stale, and their type is defined. -/
theorem Reachable.nodesOf_exact_pageJoined :
    TypesExact pageJoined.store.writer ∧
      (LiveTables.index pageJoined.store.writer).nodesOf ⟨1⟩ = [⟨1⟩, ⟨2⟩] ∧
      pageJoined.store.live.view.bindingOf ⟨1⟩ = some pageType ∧
      LiveTables.type? pageJoined.store.writer ⟨1⟩ = some articleType := by
  have hr : Reachable .content StoreOptions.default pageJoined := by
    obtain ⟨s, hs, hsteps⟩ := reachable_pageWriting
    exact ⟨s, hs, (hsteps.tail (.perform rfl renameType)).tail (.perform rfl _)⟩
  exact ⟨hr.nodesOf_exact.1, by decide +kernel, by decide +kernel, by decide +kernel⟩

end RecordedStore

end VersionedContent
