import Mathlib.Tactic.Tauto
import VersionedContent.Proofs.TreeLinks

/-!
# The index from content types to nodes

The index lists under every content type the nodes bound to a definition with its id, no more and no
fewer (`LiveContent.Indexed`), and every operation of a writer keeps it so
(`LiveContent.indexed_invariant`). Changes of content types find the nodes they concern through the
index; that it is exact is what makes them reach every such node.
-/

set_option autoImplicit false

namespace VersionedContent

/-! ### Look-ups in the index -/

namespace TypeIndex

variable {i : TypeIndex} {type t : ContentTypeId} {id x : ContentId}

theorem mem_nodesOf : x ∈ i.nodesOf t ↔ ∃ ids, i.entries[t]? = some ids ∧ x ∈ ids := by
  unfold nodesOf
  cases i.entries[t]? <;> simp [Std.ExtTreeSet.mem_toList]

theorem nodesOf_empty : empty.nodesOf t = [] := by
  simp [nodesOf, empty]

theorem mem_nodesOf_insert :
    x ∈ (i.insert type id).nodesOf t ↔ t = type ∧ x = id ∨ x ∈ i.nodesOf t := by
  rw [mem_nodesOf, mem_nodesOf, insert, Std.ExtTreeMap.getElem?_alter]
  by_cases heq : t = type
  · subst heq
    cases hids : i.entries[t]? <;> simp [Std.ExtTreeSet.mem_insert, eq_comm (a := x)]
  · simp [heq, Ne.symm heq]

theorem mem_nodesOf_erase :
    x ∈ (i.erase type id).nodesOf t ↔ ¬(t = type ∧ x = id) ∧ x ∈ i.nodesOf t := by
  rw [mem_nodesOf, mem_nodesOf, erase, Std.ExtTreeMap.getElem?_alter]
  by_cases heq : t = type
  · subst heq
    cases hids : i.entries[t]? with
    | none => simp
    | some ids =>
      have hmem : x ∈ ids.erase id ↔ x ≠ id ∧ x ∈ ids := by
        simp [Std.ExtTreeSet.mem_erase, eq_comm (a := x)]
      by_cases hempty : (ids.erase id).isEmpty
      · -- the last node of a type takes the entry with it
        rw [Std.ExtTreeSet.isEmpty_iff.mp hempty] at hmem
        simp only [Std.ExtTreeSet.not_mem_empty, false_iff] at hmem
        simpa [Option.filter, hempty] using hmem
      · simpa [Option.filter, hempty] using hmem
  · simp [heq, Ne.symm heq]

theorem mem_nodesOf_eraseType :
    x ∈ (i.eraseType type).nodesOf t ↔ t ≠ type ∧ x ∈ i.nodesOf t := by
  rw [mem_nodesOf, mem_nodesOf, eraseType, Std.ExtTreeMap.getElem?_erase]
  by_cases heq : t = type
  · simp [heq]
  · simp [heq, Ne.symm heq]

/-- A node that takes the place of another is listed under its own type only. -/
theorem mem_nodesOf_reindex {previous : Option ContentNode} {n : ContentNode}
    (hprevious : ∀ t, n.id ∈ i.nodesOf t ↔ previous.map (·.contentType.id) = some t) :
    x ∈ (Edit.reindex i previous n).nodesOf t ↔
      if x = n.id then n.contentType.id = t else x ∈ i.nodesOf t := by
  have hlisted := hprevious t
  unfold Edit.reindex
  rw [mem_nodesOf_insert]
  cases previous with
  | none =>
    dsimp only
    split_ifs with hx
    · subst hx
      simp [hlisted, eq_comm]
    · simp [hx]
  | some p =>
    dsimp only
    by_cases hsame : p.contentType.id = n.contentType.id
    · rw [if_pos hsame]
      split_ifs with hx
      · subst hx
        simp [hlisted, hsame, eq_comm]
      · simp [hx]
    · rw [if_neg hsame, mem_nodesOf_erase]
      split_ifs with hx
      · subst hx
        simp [hlisted, eq_comm]
      · simp [hx]

end TypeIndex

/-! ### The definition that a node is bound to -/

namespace ContentView

/-- The definition that a node is bound to, if the node exists. -/
def bindingOf (v : ContentView) (id : ContentId) : Option ContentType :=
  (v.node? id).map ContentNode.contentType

/-- The id of the definition that a node is bound to. -/
def typeOf (v : ContentView) (id : ContentId) : Option ContentTypeId :=
  (v.bindingOf id).map ContentType.id

theorem bindingOf_place (s : LiveContent) (k : ContentKit) (type : ContentType)
    (x : ContentId) :
    (Edit.place s k type).1.view.bindingOf x =
      if x = k.id then some type else s.view.bindingOf x :=
  LiveContent.map_node?_place s (f := ContentNode.contentType) (fun _ _ ↦ rfl) k type x

variable {s : LiveContent} {id : ContentId}

theorem Linked.bindingOf_removeSubtree_of_below (h : s.view.Linked) {x : ContentId}
    (hbelow : s.view.Below id x) : (Edit.removeSubtree s id).1.view.bindingOf x = none := by
  rw [bindingOf, h.node?_removeSubtree_of_below hbelow, Option.map_none]

theorem Linked.bindingOf_removeSubtree (h : s.view.Linked) {x : ContentId}
    (hbelow : ¬s.view.Below id x) :
    (Edit.removeSubtree s id).1.view.bindingOf x = s.view.bindingOf x :=
  h.map_node?_removeSubtree (f := ContentNode.contentType) (fun _ _ ↦ rfl) hbelow

/-- Removing branches removes at least the nodes they start from, and binds no node anew. -/
theorem Linked.bindingOf_foldl_removeSubtree (h : s.view.Linked) (ids : List ContentId)
    (x : ContentId) :
    (ids.foldl (fun s id ↦ (Edit.removeSubtree s id).1) s).view.bindingOf x = none ∨
      x ∉ ids ∧ (ids.foldl (fun s id ↦ (Edit.removeSubtree s id).1) s).view.bindingOf x =
        s.view.bindingOf x := by
  induction ids generalizing s with
  | nil => exact Or.inr ⟨List.not_mem_nil, rfl⟩
  | cons id ids ih =>
    rcases ih (h.removeSubtree id) with hgone | ⟨hnot, hrest⟩
    · exact Or.inl hgone
    · by_cases hbelow : s.view.Below id x
      · exact Or.inl (hrest.trans (h.bindingOf_removeSubtree_of_below hbelow))
      · refine Or.inr ⟨fun hmem ↦ ?_, hrest.trans (h.bindingOf_removeSubtree hbelow)⟩
        rcases List.mem_cons.mp hmem with rfl | hmem
        · exact hbelow below_self
        · exact hnot hmem

end ContentView

/-! ### The index of a tree under edits -/

namespace LiveContent

variable {s : LiveContent} {t : ContentTypeId}

theorem index_attach (s : LiveContent) (id : ContentId) (parent : Option ContentId) :
    (Edit.attach s id parent).index = s.index := by
  unfold Edit.attach
  split
  · rfl
  · split <;> rfl

theorem index_detach (s : LiveContent) (id : ContentId) (parent : Option ContentId) :
    (Edit.detach s id parent).index = s.index := by
  unfold Edit.detach
  split
  · rfl
  · split <;> rfl

theorem index_place (s : LiveContent) (k : ContentKit) (type : ContentType) :
    (Edit.place s k type).1.index =
      Edit.reindex s.index (s.view.node? k.id) (.ofKit k type []) := by
  unfold Edit.place
  rw [node?_eq]
  cases s.view.node? k.id with
  | none => exact index_attach _ _ _
  | some previous =>
    dsimp only
    by_cases hsame : previous.parentId = k.parentId
    · rw [if_pos hsame]
      rfl
    · rw [if_neg hsame, index_attach, index_detach]
      rfl

theorem mem_nodesOf_foldl_forget (s : LiveContent) (gone : List ContentNode) (x : ContentId) :
    x ∈ (gone.foldl Edit.forget s).index.nodesOf t ↔
      x ∈ s.index.nodesOf t ∧ ∀ n ∈ gone, ¬(t = n.contentType.id ∧ x = n.id) := by
  induction gone generalizing s with
  | nil => simp
  | cons n gone ih =>
    have hfirst : x ∈ (Edit.forget s n).index.nodesOf t ↔
        ¬(t = n.contentType.id ∧ x = n.id) ∧ x ∈ s.index.nodesOf t :=
      TypeIndex.mem_nodesOf_erase
    rw [List.foldl_cons, ih, hfirst, List.forall_mem_cons]
    tauto

/-- A node leaves the lists of the index exactly when it is removed. -/
theorem mem_nodesOf_removeSubtree (h : s.view.Linked) {id x : ContentId} :
    x ∈ (Edit.removeSubtree s id).1.index.nodesOf t ↔
      x ∈ s.index.nodesOf t ∧ ¬(s.view.Below id x ∧ s.view.typeOf x = some t) := by
  unfold Edit.removeSubtree
  cases hn : s.view.node? id with
  | none =>
    simp only [node?_eq, hn]
    have hnot : ¬(s.view.Below id x ∧ s.view.typeOf x = some t) := by
      rintro ⟨hbelow, htype⟩
      have hgone := h.bindingOf_removeSubtree_of_below hbelow
      simp only [Edit.removeSubtree, node?_eq, hn] at hgone
      simp [ContentView.typeOf, hgone] at htype
    exact (and_iff_left hnot).symm
  | some n =>
    simp only [node?_eq, hn, mem_nodesOf_foldl_forget, index_detach]
    refine and_congr_right fun _ ↦ ?_
    constructor
    · rintro hnone ⟨hbelow, htype⟩
      obtain ⟨d, hd, hid⟩ := Option.map_eq_some_iff.mp htype
      obtain ⟨m, hm, rfl⟩ := Option.map_eq_some_iff.mp hd
      obtain rfl := h.id_eq hm
      exact hnone m (h.mem_branch.mpr ⟨hm, hbelow.exists_lt_count⟩) ⟨hid.symm, rfl⟩
    · rintro hnot m hm ⟨rfl, rfl⟩
      obtain ⟨hexists, steps, -, hsteps⟩ := h.mem_branch.mp hm
      have htype : s.view.typeOf m.id = some m.contentType.id := by
        rw [ContentView.typeOf, ContentView.bindingOf, hexists, Option.map_some, Option.map_some]
      exact hnot ⟨⟨steps, hsteps⟩, htype⟩

/-- The index lists under a type exactly the nodes bound to a definition with its id. -/
def Lists (s : LiveContent) (t : ContentTypeId) : Prop :=
  ∀ id, id ∈ s.index.nodesOf t ↔ s.view.typeOf id = some t

/-- The links agree, the index is exact, and definitions are stored under their own ids. -/
structure Indexed (s : LiveContent) : Prop where
  linked : s.view.Linked
  lists : ∀ t, s.Lists t
  type_id_eq : ∀ {t d}, s.view.type? t = some d → d.id = t

theorem Lists.removeSubtree (h : s.Lists t) (hlinked : s.view.Linked) (id : ContentId) :
    (Edit.removeSubtree s id).1.Lists t := by
  intro x
  rw [mem_nodesOf_removeSubtree hlinked, h x]
  by_cases hbelow : s.view.Below id x
  · simp [ContentView.typeOf, hlinked.bindingOf_removeSubtree_of_below hbelow, hbelow]
  · simp [ContentView.typeOf, hlinked.bindingOf_removeSubtree hbelow, hbelow]

theorem indexed_of_no_nodes (hlinked : s.view.Linked) (hnodes : ∀ id, s.view.node? id = none)
    (hindex : s.index = TypeIndex.empty)
    (htypes : ∀ {t d}, s.view.type? t = some d → d.id = t) : s.Indexed := by
  refine ⟨hlinked, fun t id ↦ ?_, htypes⟩
  rw [hindex, TypeIndex.nodesOf_empty, ContentView.typeOf, ContentView.bindingOf, hnodes]
  simp

theorem indexed_empty : LiveContent.empty.Indexed := by
  refine indexed_of_no_nodes ContentView.linked_empty (fun _ ↦ Std.ExtTreeMap.getElem?_empty) rfl
    fun {t d} hd ↦ ?_
  rw [type?_empty] at hd
  contradiction

theorem Indexed.set (h : s.Indexed) (k : ContentKit) : (Edit.set s k).1.Indexed := by
  refine ⟨h.linked.set k, ?_, ?_⟩
  · intro t x
    unfold Edit.set
    cases hvet : Edit.vet s k with
    | error reason => exact h.lists t x
    | ok type =>
      have hprevious : ∀ t, k.id ∈ s.index.nodesOf t ↔
          (s.view.node? k.id).map (·.contentType.id) = some t := by
        intro t
        rw [h.lists t, ContentView.typeOf, ContentView.bindingOf, Option.map_map]
        rfl
      dsimp only
      rw [index_place, TypeIndex.mem_nodesOf_reindex (n := .ofKit k type []) hprevious,
        ContentView.typeOf, ContentView.bindingOf_place, h.lists t, ContentView.typeOf]
      show (if x = k.id then type.id = t else _) ↔ _
      split_ifs
      · simp
      · rfl
  · intro t d hd
    rw [type?_of_typeTables (typeTables_set s k)] at hd
    exact h.type_id_eq hd

theorem Indexed.removeSubtree (h : s.Indexed) (id : ContentId) :
    (Edit.removeSubtree s id).1.Indexed where
  linked := h.linked.removeSubtree id
  lists t := (h.lists t).removeSubtree h.linked id
  type_id_eq {t d} hd := by
    rw [type?_of_typeTables (typeTables_removeSubtree s id)] at hd
    exact h.type_id_eq hd

/-! ### Removing a type -/

/-- Halfway through the removal of a type its own list is gone already; the others are exact. -/
structure IndexedBut (s : LiveContent) (gone : ContentTypeId) : Prop where
  linked : s.view.Linked
  lists : ∀ t, t ≠ gone → s.Lists t
  unlisted : ∀ id, id ∉ s.index.nodesOf gone

theorem IndexedBut.removeSubtree (h : s.IndexedBut t) (id : ContentId) :
    (Edit.removeSubtree s id).1.IndexedBut t where
  linked := h.linked.removeSubtree id
  lists u hu := (h.lists u hu).removeSubtree h.linked id
  unlisted x hx := h.unlisted x ((mem_nodesOf_removeSubtree h.linked).mp hx).1

theorem Indexed.indexedBut_eraseType (h : s.Indexed) (t : ContentTypeId) :
    (LiveTables.setIndex s (s.index.eraseType t)).IndexedBut t where
  linked := h.linked
  lists u hu x := by
    refine TypeIndex.mem_nodesOf_eraseType.trans ?_
    rw [h.lists u]
    exact and_iff_right hu
  unlisted x hx := (TypeIndex.mem_nodesOf_eraseType.mp hx).1 rfl

/-- The state in which the nodes of a type are removed and the definition is still stored. -/
def withoutNodesOf (s : LiveContent) (t : ContentTypeId) : LiveContent :=
  (s.index.nodesOf t).foldl (fun s id ↦ (Edit.removeSubtree s id).1)
    (LiveTables.setIndex s (s.index.eraseType t))

/-- Removing a type leaves no node of it, and binds no node anew. -/
theorem Indexed.bindingOf_withoutNodesOf (h : s.Indexed) (t : ContentTypeId) (x : ContentId) :
    (s.withoutNodesOf t).view.bindingOf x = none ∨
      s.view.typeOf x ≠ some t ∧
        (s.withoutNodesOf t).view.bindingOf x = s.view.bindingOf x := by
  have hstart : (LiveTables.setIndex s (s.index.eraseType t)).view.Linked := h.linked
  rcases hstart.bindingOf_foldl_removeSubtree (s.index.nodesOf t) x with hgone | ⟨hnot, hsame⟩
  · exact Or.inl hgone
  · exact Or.inr ⟨fun htype ↦ hnot ((h.lists t x).mpr htype), hsame⟩

theorem Indexed.typeOf_withoutNodesOf_ne (h : s.Indexed) (t : ContentTypeId) (x : ContentId) :
    (s.withoutNodesOf t).view.typeOf x ≠ some t := by
  rcases h.bindingOf_withoutNodesOf t x with hgone | ⟨hne, hsame⟩
  · simp [ContentView.typeOf, hgone]
  · rw [ContentView.typeOf, hsame]
    exact hne

theorem typeTables_withoutNodesOf (s : LiveContent) (t : ContentTypeId) :
    (s.withoutNodesOf t).typeTables = s.typeTables :=
  foldl_unchanged typeTables typeTables_removeSubtree _ _

theorem Indexed.withoutNodesOf (h : s.Indexed) (t : ContentTypeId) :
    (s.withoutNodesOf t).Indexed := by
  have hbut : (s.withoutNodesOf t).IndexedBut t :=
    foldl_keeps (P := fun u : LiveContent ↦ u.IndexedBut t) (fun _ id hu ↦ hu.removeSubtree id) _
      (h.indexedBut_eraseType t)
  refine ⟨hbut.linked, ?_, ?_⟩
  · intro u
    by_cases heq : u = t
    · subst heq
      exact fun x ↦ iff_of_false (hbut.unlisted x) (h.typeOf_withoutNodesOf_ne u x)
    · exact hbut.lists u heq
  · intro u d hd
    rw [type?_of_typeTables (typeTables_withoutNodesOf s t)] at hd
    exact h.type_id_eq hd

theorem removeType_fst (s : LiveContent) (t : ContentTypeId) :
    (Retype.removeType s t).1 = (Retype.dropType (s.withoutNodesOf t) t).1 := by
  simp only [Retype.removeType, Retype.removeEach_fst]
  rfl

theorem dropType_spec (s : LiveContent) (t : ContentTypeId) :
    (Retype.dropType s t).1.view.nodes = s.view.nodes ∧
      (Retype.dropType s t).1.view.roots = s.view.roots ∧
      (Retype.dropType s t).1.index = s.index ∧
      (Retype.dropType s t).1.view.type? = Function.update s.view.type? t none := by
  unfold Retype.dropType
  rw [type?_eq]
  cases hd : s.view.type? t with
  | none => exact ⟨rfl, rfl, rfl, (Function.update_eq_self_iff.mpr hd.symm).symm⟩
  | some d => exact ⟨rfl, rfl, rfl, type?_clearType _ t⟩

theorem putType_spec (s : LiveContent) (d : ContentType) :
    (Retype.putType s d).view.nodes = s.view.nodes ∧
      (Retype.putType s d).view.roots = s.view.roots ∧
      (Retype.putType s d).index = s.index ∧
      (Retype.putType s d).view.type? = Function.update s.view.type? d.id (some d) := by
  unfold Retype.putType
  dsimp only
  split
  · split_ifs
    · exact ⟨rfl, rfl, rfl, type?_setType s d.id d⟩
    · exact ⟨rfl, rfl, rfl, type?_setType _ d.id d⟩
  · exact ⟨rfl, rfl, rfl, type?_setType s d.id d⟩

/-- A change of the stored definitions alone leaves the index exact. -/
theorem Indexed.withTypes (h : s.Indexed) {u : LiveContent} (hnodes : u.view.nodes = s.view.nodes)
    (hroots : u.view.roots = s.view.roots) (hindex : u.index = s.index)
    (htypes : ∀ {t d}, u.view.type? t = some d → d.id = t) : u.Indexed := by
  refine ⟨h.linked.congr hnodes hroots, fun t id ↦ ?_, htypes⟩
  rw [hindex, h.lists t]
  simp only [ContentView.typeOf, ContentView.bindingOf, ContentView.node?, hnodes]

theorem Indexed.removeType (h : s.Indexed) (t : ContentTypeId) :
    (Retype.removeType s t).1.Indexed := by
  have hremoved := h.withoutNodesOf t
  obtain ⟨hnodes, hroots, hindex, htypes⟩ := dropType_spec (s.withoutNodesOf t) t
  rw [removeType_fst]
  refine hremoved.withTypes hnodes hroots hindex fun {u d} hd ↦ ?_
  rw [htypes, Function.update_apply] at hd
  split_ifs at hd
  exact hremoved.type_id_eq hd

theorem Indexed.putType (h : s.Indexed) (d : ContentType) : (Retype.putType s d).Indexed := by
  obtain ⟨hnodes, hroots, hindex, htypes⟩ := putType_spec s d
  refine h.withTypes hnodes hroots hindex fun {t e} he ↦ ?_
  rw [htypes, Function.update_apply] at he
  split_ifs at he with heq
  · rw [heq, Option.some.inj he]
  · exact h.type_id_eq he

/-! ### Binding the nodes of a type anew -/

theorem bindingOf_rebindNode {d : ContentType} {id : ContentId}
    (hid : ∃ t, s.view.typeOf id = some t) (x : ContentId) :
    (Retype.rebindNode s d id).1.view.bindingOf x =
      if x = id then some d else s.view.bindingOf x := by
  obtain ⟨t, ht⟩ := hid
  unfold Retype.rebindNode
  cases hn : s.view.node? id with
  | none => simp [ContentView.typeOf, ContentView.bindingOf, hn] at ht
  | some n =>
    simp only [node?_eq, hn]
    rw [ContentView.bindingOf, node?_setNode, Function.update_apply]
    split_ifs <;> rfl

theorem index_rebindNode (s : LiveContent) (d : ContentType) (id : ContentId) :
    (Retype.rebindNode s d id).1.index = s.index := by
  unfold Retype.rebindNode
  split <;> rfl

theorem index_rebindNodes (s : LiveContent) (d : ContentType) (except : List ContentId) :
    (Retype.rebindNodes s d except).1.index = s.index := by
  rw [Retype.rebindNodes_fst]
  exact foldl_unchanged LiveContent.index (fun u id ↦ index_rebindNode u d id) _ s

theorem typeTables_rebindNodes (s : LiveContent) (d : ContentType) (except : List ContentId) :
    (Retype.rebindNodes s d except).1.typeTables = s.typeTables := by
  rw [Retype.rebindNodes_fst]
  exact foldl_unchanged typeTables (fun u id ↦ typeTables_rebindNode u d id) _ s

/-- Nodes that exist are bound to a definition one after another; no other node is touched. -/
theorem bindingOf_foldl_rebindNode {d : ContentType} {ids : List ContentId}
    (hids : ∀ id ∈ ids, ∃ t, s.view.typeOf id = some t) (x : ContentId) :
    (ids.foldl (fun s id ↦ (Retype.rebindNode s d id).1) s).view.bindingOf x =
      if x ∈ ids then some d else s.view.bindingOf x := by
  induction ids generalizing s with
  | nil => simp
  | cons id ids ih =>
    have hfirst := bindingOf_rebindNode (d := d) (hids id List.mem_cons_self)
    have hrest : ∀ y ∈ ids, ∃ t, (Retype.rebindNode s d id).1.view.typeOf y = some t := by
      intro y hy
      rw [ContentView.typeOf, hfirst]
      split_ifs
      · exact ⟨d.id, rfl⟩
      · exact hids y (List.mem_cons_of_mem id hy)
    rw [List.foldl_cons, ih hrest, hfirst]
    by_cases hx : x = id <;> simp [hx]

/-- Binding the nodes of a type reaches every node of it that is not excepted. -/
theorem Indexed.bindingOf_rebindNodes (h : s.Indexed) (d : ContentType)
    (except : List ContentId) (x : ContentId) :
    (Retype.rebindNodes s d except).1.view.bindingOf x =
      if s.view.typeOf x = some d.id ∧ x ∉ except then some d else s.view.bindingOf x := by
  have hmem : ∀ y, y ∈ (s.index.nodesOf d.id).filter (· ∉ except) ↔
      s.view.typeOf y = some d.id ∧ y ∉ except := by
    intro y
    rw [List.mem_filter, h.lists d.id, decide_eq_true_iff]
  rw [Retype.rebindNodes_fst]
  refine (bindingOf_foldl_rebindNode (fun y hy ↦ ⟨d.id, ((hmem y).mp hy).1⟩) x).trans ?_
  exact if_congr (hmem x) rfl rfl

theorem Indexed.typeOf_rebindNodes (h : s.Indexed) (d : ContentType) (except : List ContentId)
    (x : ContentId) :
    (Retype.rebindNodes s d except).1.view.typeOf x = s.view.typeOf x := by
  rw [ContentView.typeOf, h.bindingOf_rebindNodes]
  split_ifs with hbound
  · exact hbound.1.symm
  · rfl

theorem Indexed.rebindNodes (h : s.Indexed) (d : ContentType) (except : List ContentId) :
    (Retype.rebindNodes s d except).1.Indexed where
  linked := ContentView.linked_invariant.rebindNodes h.linked d except
  lists t x := by
    rw [index_rebindNodes, h.lists t, h.typeOf_rebindNodes]
  type_id_eq {t e} he := by
    rw [type?_of_typeTables (typeTables_rebindNodes s d except)] at he
    exact h.type_id_eq he

/-- Every operation of a writer keeps the index exact. -/
theorem indexed_invariant : EditInvariant Indexed where
  set h k := h.set k
  removeSubtree h id := h.removeSubtree id
  clearTree h := indexed_of_no_nodes (ContentView.linked_invariant.clearTree h.linked)
    (fun _ ↦ Std.ExtTreeMap.getElem?_empty) rfl h.type_id_eq
  removeType h t := h.removeType t
  putType h d := h.putType d
  rebindNodes h d except := h.rebindNodes d except

end LiveContent

end VersionedContent
