import Mathlib.Algebra.Ring.Nat
import VersionedContent.Proofs.TypeRemoval
import VersionedContent.Proofs.TypedNodes

/-!
# What a change of data types refreshes

A refresh asks a callback for a new definition of every type that has a property of one of some data
types: once, by id, and with the definition of before the refresh, whatever the callback has
answered so far. Then the definitions given are stored one after another, and the nodes of their
types are bound to them in the same order. In the end each type has the last definition given for
it, and every node is bound to the definition of its type if it was before
(`RecordedStore.Reachable.dataTypesRefreshed`). Binding nodes changes neither their types nor the
index, so the nodes of a type are the same each time one of its definitions comes up.
-/

set_option autoImplicit false

namespace VersionedContent

/-! ### Questions to a callback -/

section Questions

variable {ρ : Type}

/-- A callback is asked for new definitions one after another: the questions with the answers it
gives, and the state that it comes to. -/
inductive Asks (resolve : ρ → ContentType → ρ × Option ContentType) :
    ρ → List (ContentType × Option ContentType) → ρ → Prop
  | done (r : ρ) : Asks resolve r [] r
  | ask {r last : ρ} (d : ContentType) {more : List (ContentType × Option ContentType)}
    (h : Asks resolve (resolve r d).1 more last) :
    Asks resolve r ((d, (resolve r d).2) :: more) last

/-- Every type is asked for in turn, and the answers are collected. -/
theorem asks_resolveEach (resolve : ρ → ContentType → ρ × Option ContentType) (r : ρ)
    (types : List ContentType) :
    ∃ asked, Asks resolve r asked (Retype.resolveEach resolve r types).1 ∧
      asked.map Prod.fst = types ∧
      asked.filterMap Prod.snd = (Retype.resolveEach resolve r types).2 := by
  induction types generalizing r with
  | nil => exact ⟨[], .done r, rfl, rfl⟩
  | cons d types ih =>
    obtain ⟨asked, hasks, htypes, hanswers⟩ := ih (resolve r d).1
    refine ⟨(d, (resolve r d).2) :: asked, .ask d hasks, congrArg (d :: ·) htypes, ?_⟩
    show _ = (resolve r d).2.toList ++ (Retype.resolveEach resolve (resolve r d).1 types).2
    rw [← hanswers, List.filterMap_cons]
    cases (resolve r d).2 <;> rfl

end Questions

namespace LiveContent

open ContentView

variable {s u : LiveContent} {id x : ContentId} {d : ContentType}

/-! ### The types that are asked for -/

theorem mem_affectedTypes (ids : List DataTypeId) :
    d ∈ Retype.affectedTypes s ids ↔
      (∃ t, s.view.type? t = some d) ∧ ∃ p ∈ d.propertyTypes, p.dataTypeId ∈ ids := by
  have huses : ids.any d.usesDataType = true ↔ ∃ p ∈ d.propertyTypes, p.dataTypeId ∈ ids := by
    simp only [List.any_eq_true, ContentType.usesDataType, beq_iff_eq]
    exact ⟨fun ⟨id, hid, p, hp, heq⟩ ↦ ⟨p, hp, heq ▸ hid⟩,
      fun ⟨p, hp, hmem⟩ ↦ ⟨_, hmem, p, hp, rfl⟩⟩
  rw [Retype.affectedTypes, List.mem_filter, huses]
  exact and_congr_left fun _ ↦ mem_allTypes

/-- Stored definitions are listed by id. -/
theorem Indexed.pairwise_allTypes (h : s.Indexed) :
    (s.view.allTypes.map ContentType.id).Pairwise (·.val < ·.val) := by
  have hids : s.view.allTypes.map ContentType.id = s.view.types.keys := by
    rw [allTypes, values_eq_map_snd, List.map_map, ← Std.ExtTreeMap.map_fst_toList_eq_keys]
    refine List.map_congr_left fun p hp ↦ ?_
    exact h.type_id_eq (Std.ExtTreeMap.mem_toList_iff_getElem?_eq_some.mp hp)
  have hordered := Std.ExtTreeMap.ordered_keys (t := s.view.types)
  rw [hids]
  exact hordered.imp fun {a b} hlt ↦ compareOfLessAndEq_eq_lt.mp hlt

theorem Indexed.pairwise_affectedTypes (h : s.Indexed) (ids : List DataTypeId) :
    ((Retype.affectedTypes s ids).map ContentType.id).Pairwise (·.val < ·.val) :=
  h.pairwise_allTypes.sublist (List.filter_sublist.map _)

/-! ### Storing definitions and binding nodes -/

/-- A node apart from the definition that it is bound to. -/
def unbound? (s : LiveContent) (id : ContentId) : Option ContentNode :=
  (s.view.node? id).map (·.rebind default)

/-- Nodes of a state that is the same but for what nodes are bound to. -/
theorem node?_of_unbound? {bind : ContentType → ContentType} (hsame : u.unbound? id = s.unbound? id)
    (hbound : u.view.bindingOf id = (s.view.bindingOf id).map bind) :
    u.view.node? id = (s.view.node? id).map fun n ↦ n.rebind (bind n.contentType) := by
  unfold unbound? at hsame
  unfold bindingOf at hbound
  cases hn : s.view.node? id with
  | none =>
    rw [hn] at hsame
    exact Option.map_eq_none_iff.mp hsame
  | some n =>
    rw [hn, Option.map_some] at hsame hbound
    obtain ⟨m, hm, hrest⟩ := Option.map_eq_some_iff.mp hsame
    rw [hm, Option.map_some, Option.map_some, Option.some.injEq] at hbound
    rw [hm, Option.map_some]
    refine congrArg some ?_
    calc m = (m.rebind default).rebind m.contentType := rfl
      _ = (n.rebind default).rebind (bind n.contentType) := by rw [hrest, hbound]
      _ = n.rebind (bind n.contentType) := rfl

theorem unbound?_rebindNode (s : LiveContent) (d : ContentType) (id : ContentId) :
    (Retype.rebindNode s d id).1.unbound? = s.unbound? := by
  unfold Retype.rebindNode
  rw [node?_eq]
  cases hn : s.view.node? id with
  | none => rfl
  | some n =>
    funext x
    rw [unbound?, node?_setNode, Function.update_apply]
    split_ifs with heq
    · rw [heq, unbound?, hn]
      rfl
    · rfl

theorem roots_rebindNode (s : LiveContent) (d : ContentType) (id : ContentId) :
    (Retype.rebindNode s d id).1.view.roots = s.view.roots := by
  unfold Retype.rebindNode
  split <;> rfl

/-- Binding the nodes of any types leaves alone what binding one node leaves alone. -/
theorem rebindAll_unchanged {β : Type} {f : LiveContent → β}
    (hnode : ∀ (s : LiveContent) d id, f (Retype.rebindNode s d id).1 = f s) (s : LiveContent)
    (types : List ContentType) (except : List ContentId) :
    f (Retype.rebindAll s types except).1 = f s := by
  rw [Retype.rebindAll_fst]
  refine foldl_unchanged f (fun u d ↦ ?_) types s
  rw [Retype.rebindNodes_fst]
  exact foldl_unchanged f (fun u id ↦ hnode u d id) _ u

/-- Storing definitions touches neither nodes nor roots nor the index. -/
theorem foldl_putType_unchanged (s : LiveContent) (types : List ContentType) :
    (types.foldl Retype.putType s).view.nodes = s.view.nodes ∧
      (types.foldl Retype.putType s).view.roots = s.view.roots ∧
      (types.foldl Retype.putType s).index = s.index := by
  have hput := putType_spec
  exact ⟨foldl_unchanged (fun u : LiveContent ↦ u.view.nodes) (fun u d ↦ (hput u d).1) types s,
    foldl_unchanged (fun u : LiveContent ↦ u.view.roots) (fun u d ↦ (hput u d).2.1) types s,
    foldl_unchanged (fun u : LiveContent ↦ u.index) (fun u d ↦ (hput u d).2.2.1) types s⟩

/-- With no types to remove and no kits, a change of types stores definitions and binds nodes. -/
theorem updateTypes_refreshed (s : LiveContent) (types : List ContentType) :
    Retype.updateTypes s [] types [] =
      ((Retype.rebindAll (types.foldl Retype.putType s) types []).1,
        { removedTypes := 0
          refreshedTypes := types.length
          removedNodes := 0
          reboundNodes := (Retype.rebindAll (types.foldl Retype.putType s) types []).2
          kits := LoadReport.zero }) := by
  simp [Retype.updateTypes, Retype.removeTypes, Edit.setOrdered, Edit.setEach]

/-! ### The number of nodes bound -/

theorem isSome_rebindNode (s : LiveContent) (d : ContentType) (id x : ContentId) :
    ((Retype.rebindNode s d id).1.view.node? x).isSome = (s.view.node? x).isSome := by
  have hsame := congrArg (fun f ↦ (f x).isSome) (unbound?_rebindNode s d id)
  simpa only [unbound?, Option.isSome_map] using hsame

/-- Binding a node that there is counts. -/
theorem rebindNode_snd (h : (s.view.node? id).isSome) : (Retype.rebindNode s d id).2 = true := by
  obtain ⟨n, hn⟩ := Option.isSome_iff_exists.mp h
  simp only [Retype.rebindNode, node?_eq, hn]

theorem foldl_rebindNode_snd {ids : List ContentId} (h : ∀ id ∈ ids, (s.view.node? id).isSome)
    (count : Nat) :
    (ids.foldl (fun (x : LiveContent × Nat) id ↦
      ((Retype.rebindNode x.1 d id).1, x.2 + if (Retype.rebindNode x.1 d id).2 then 1 else 0))
        (s, count)).2 = count + ids.length := by
  induction ids generalizing s count with
  | nil => rfl
  | cons id ids ih =>
    obtain ⟨hfirst, hrest⟩ := List.forall_mem_cons.mp h
    have hstill : ∀ x ∈ ids, ((Retype.rebindNode s d id).1.view.node? x).isSome :=
      fun x hx ↦ (isSome_rebindNode s d id x).trans (hrest x hx)
    rw [List.foldl_cons, ih hstill, rebindNode_snd hfirst, if_pos rfl, List.length_cons]
    lia

/-- Binding the nodes of a type counts those that the index lists. -/
theorem Indexed.rebindNodes_snd (h : s.Indexed) (d : ContentType) :
    (Retype.rebindNodes s d []).2 = (s.index.nodesOf d.id).length := by
  have hall : (s.index.nodesOf d.id).filter (· ∉ ([] : List ContentId)) = s.index.nodesOf d.id :=
    List.filter_eq_self.mpr fun _ _ ↦ decide_eq_true List.not_mem_nil
  have hexist : ∀ id ∈ s.index.nodesOf d.id, (s.view.node? id).isSome := fun id hid ↦
    Std.ExtTreeMap.mem_iff_isSome_getElem?.mp (mem_nodes_of_typeOf ((h.lists d.id id).mp hid))
  have hcount := foldl_rebindNode_snd (d := d) hexist 0
  rw [Nat.zero_add] at hcount
  rw [← hcount, Retype.rebindNodes]
  conv_rhs => rw [← hall]
  rfl

/-- The index lists every node of a type once. -/
theorem Indexed.length_nodesOf (h : s.Indexed) (t : ContentTypeId) :
    (s.index.nodesOf t).length =
      (s.view.nodes.keys.filter fun id ↦ s.view.typeOf id = some t).length := by
  have hnodup : (s.index.nodesOf t).Nodup :=
    (s.index.pairwise_nodesOf t).imp fun {a b} (hlt : a.val < b.val) (heq : a = b) ↦
      absurd (heq ▸ hlt) (UInt32.lt_irrefl b.val)
  refine List.Perm.length_eq ((List.perm_ext_iff_of_nodup hnodup
    (Std.ExtTreeMap.nodup_keys.filter _)).mpr fun id ↦ ?_)
  rw [h.lists t id, List.mem_filter, Std.ExtTreeMap.mem_keys, decide_eq_true_iff]
  exact (and_iff_right_of_imp mem_nodes_of_typeOf).symm

theorem Indexed.foldl_rebindNodes_snd (h : s.Indexed) (types : List ContentType) (count : Nat) :
    (types.foldl (fun (x : LiveContent × Nat) d ↦
      ((Retype.rebindNodes x.1 d []).1, x.2 + (Retype.rebindNodes x.1 d []).2)) (s, count)).2 =
        count + (types.map fun d ↦ (s.index.nodesOf d.id).length).sum := by
  induction types generalizing s count with
  | nil => rfl
  | cons d types ih =>
    -- the index is the one of before, so the next definitions find the same nodes
    rw [List.foldl_cons, ih (h.rebindNodes d []), h.rebindNodes_snd, index_rebindNodes,
      List.map_cons, List.sum_cons]
    lia

/-- The nodes of a type are counted again for every definition given for it. -/
theorem Indexed.rebindAll_snd (h : s.Indexed) (types : List ContentType) :
    (Retype.rebindAll s types []).2 =
      (types.map fun d ↦ (s.index.nodesOf d.id).length).sum := by
  have hcount := h.foldl_rebindNodes_snd types 0
  rw [Nat.zero_add] at hcount
  exact hcount

/-! ### Refreshes -/

/-- Whether no node is stale can be seen from the nodes. -/
theorem fresh_iff :
    s.Fresh ↔ ∀ n ∈ s.view.nodes.values, s.view.type? n.contentType.id = some n.contentType := by
  constructor
  · intro hfresh n hn
    obtain ⟨id, hid⟩ := mem_values_iff.mp hn
    have hbound : s.view.bindingOf id = some n.contentType := congrArg (Option.map _) hid
    exact hfresh.type?_eq hbound
  · intro hall
    refine fresh_of_type?_eq fun id d hd ↦ ?_
    obtain ⟨n, hn, rfl⟩ := Option.map_eq_some_iff.mp hd
    exact hall n (mem_values_iff.mpr ⟨id, hn⟩)

instance (s : LiveContent) : Decidable s.Fresh := decidable_of_iff _ fresh_iff.symm

/-- What storing definitions and binding the nodes of their types makes of a state, with the report
on it. -/
structure TypesRefreshed (s : LiveContent) (types : List ContentType) (after : LiveContent)
    (rebuild : TypeRebuild) : Prop where
  /-- Of several definitions for one type the last one is stored. -/
  type?_eq : ∀ t, after.view.type? t = (Retype.lastOf types t).or (s.view.type? t)
  /-- A node is as before but for the definition that it is bound to. -/
  node?_eq : ∀ id, after.view.node? id = (s.view.node? id).map fun n ↦
    { n with contentType := (Retype.lastOf types n.contentType.id).getD n.contentType }
  typeOf_eq : ∀ id, after.view.typeOf id = s.view.typeOf id
  bound : ∀ id n, after.view.node? id = some n →
    after.view.type? n.contentType.id = some n.contentType
  roots_eq : after.view.roots = s.view.roots
  index_eq : after.index = s.index
  rebuild_eq : rebuild =
    { removedTypes := 0
      refreshedTypes := types.length
      removedNodes := 0
      reboundNodes := (types.map fun d ↦
        (s.view.nodes.keys.filter fun id ↦ s.view.typeOf id = some d.id).length).sum
      kits := LoadReport.zero }

theorem Fresh.updateTypes_of_no_kits (hfresh : s.Fresh) (h : s.Indexed) (types : List ContentType) :
    (Retype.updateTypes s [] types []).1.Fresh := by
  intro id hstale
  obtain ⟨-, -, -, -, -, hnamed, -⟩ :=
    (Fresh.stale_updateTypes_iff h [] types [] hfresh id).mp hstale
  exact absurd hnamed List.not_mem_nil

theorem Indexed.refreshed_updateTypes (h : s.Indexed) (hfresh : s.Fresh)
    (types : List ContentType) :
    s.TypesRefreshed types (Retype.updateTypes s [] types []).1
      (Retype.updateTypes s [] types []).2 := by
  let stored := types.foldl Retype.putType s
  have hstored : stored.Indexed := indexed_invariant.putTypes h types
  obtain ⟨hnodes, hroots, hindex⟩ := foldl_putType_unchanged s types
  have hfreshAfter := hfresh.updateTypes_of_no_kits h types
  have htypes := type?_updateTypes s [] types []
  rw [updateTypes_refreshed] at hfreshAfter htypes ⊢
  have hunbound : (Retype.rebindAll stored types []).1.unbound? = s.unbound? := by
    rw [rebindAll_unchanged unbound?_rebindNode]
    funext id
    rw [unbound?, node?, hnodes]
    rfl
  have hrootsAfter : (Retype.rebindAll stored types []).1.view.roots = stored.view.roots :=
    rebindAll_unchanged (f := fun u ↦ u.view.roots) roots_rebindNode stored types []
  have hbinding : ∀ id, (Retype.rebindAll stored types []).1.view.bindingOf id =
      (s.view.bindingOf id).map fun d ↦ (Retype.lastOf types d.id).getD d := by
    intro id
    rw [hstored.bindingOf_rebindAll, if_neg List.not_mem_nil, bindingOf_foldl_putType]
  have hrebound : (Retype.rebindAll stored types []).2 = (types.map fun d ↦
      (s.view.nodes.keys.filter fun id ↦ s.view.typeOf id = some d.id).length).sum := by
    rw [hstored.rebindAll_snd, hindex]
    exact congrArg List.sum (List.map_congr_left fun d _ ↦ h.length_nodesOf d.id)
  exact {
    type?_eq := htypes
    node?_eq := fun id ↦ node?_of_unbound? (congrFun hunbound id) (hbinding id)
    typeOf_eq := fun id ↦ by
      rw [typeOf, hbinding id, typeOf, Option.map_map]
      refine congrArg (Option.map · _) (funext fun d ↦ ?_)
      cases hlast : Retype.lastOf types d.id with
      | none => simp [hlast]
      | some e => simp [hlast, Retype.id_of_lastOf hlast]
    bound := fun id n hn ↦ hfreshAfter.type?_eq (by rw [bindingOf, hn, Option.map_some])
    roots_eq := hrootsAfter.trans hroots
    index_eq := (rebindAll_unchanged index_rebindNode stored types []).trans hindex
    rebuild_eq := congrArg (fun count ↦ TypeRebuild.mk 0 types.length 0 count LoadReport.zero)
      hrebound }

/-- What a refresh by data types makes of a state without stale nodes, with the questions that it
puts to the callback, the state that the callback comes to and the report. -/
structure DataTypesRefreshed {ρ : Type} (s : LiveContent) (ids : List DataTypeId)
    (resolve : ρ → ContentType → ρ × Option ContentType) (r : ρ)
    (asked : List (ContentType × Option ContentType)) (after : LiveContent) (last : ρ)
    (rebuild : TypeRebuild) : Prop where
  asks : Asks resolve r asked last
  /-- The types are asked for once, by id. -/
  ascending : (asked.map fun question ↦ question.1.id).Pairwise (·.val < ·.val)
  /-- They are the types that use one of the data types, as they are stored before. -/
  asked_iff : ∀ d, d ∈ asked.map Prod.fst ↔
    s.view.type? d.id = some d ∧ ∃ p ∈ d.propertyTypes, p.dataTypeId ∈ ids
  /-- The answers are stored, and the nodes of their types bound to them. -/
  refreshed : s.TypesRefreshed (asked.filterMap Prod.snd) after rebuild

theorem Indexed.refreshed_updateDataTypes (h : s.Indexed) (hfresh : s.Fresh) {ρ : Type}
    (ids : List DataTypeId) (resolve : ρ → ContentType → ρ × Option ContentType) (r : ρ) :
    ∃ asked, s.DataTypesRefreshed ids resolve r asked (Retype.updateDataTypes s ids resolve r).1
      (Retype.updateDataTypes s ids resolve r).2.1
      (Retype.updateDataTypes s ids resolve r).2.2 := by
  obtain ⟨asked, hasks, htypes, hanswers⟩ :=
    asks_resolveEach resolve r (Retype.affectedTypes s ids)
  have hids : asked.map (fun question ↦ question.1.id) =
      (Retype.affectedTypes s ids).map ContentType.id := by
    rw [← htypes, List.map_map]
    rfl
  refine ⟨asked, hasks, ?_, fun d ↦ ?_, ?_⟩
  · rw [hids]
    exact h.pairwise_affectedTypes ids
  · rw [htypes, mem_affectedTypes]
    refine and_congr_left fun _ ↦ ?_
    exact ⟨fun ⟨t, ht⟩ ↦ (h.type_id_eq ht).symm ▸ ht, fun hd ↦ ⟨_, hd⟩⟩
  · rw [hanswers]
    exact h.refreshed_updateTypes hfresh _

end LiveContent

/-! ### In every state of a run -/

namespace RecordedStore

variable {r : RecordedStore} {kind : ItemKind} {options : StoreOptions}

/-- A refresh by data types on the versioned tables of a store asks the callback and reports as on
the plain tables of the writer's view, and leaves what it leaves there. -/
theorem Reachable.updateDataTypes_eq (hr : Reachable kind options r) {ρ : Type}
    (ids : List DataTypeId) (resolve : ρ → ContentType → ρ × Option ContentType) (c : ρ) :
    (r.store.updateDataTypes ids resolve c).1.live =
        (Retype.updateDataTypes r.store.live ids resolve c).1 ∧
      (r.store.updateDataTypes ids resolve c).2 =
        (Retype.updateDataTypes r.store.live ids resolve c).2 := by
  obtain ⟨hfollows, hanswer⟩ :=
    (ContentWriter.simulation_follows r.store.writer).draftSimulation.updateDataTypes
      (ContentWriter.follows_refl hr.faithful.headsLE) ids resolve c
  exact ⟨hfollows.live_eq, hanswer⟩

/-- In every state of a run in which no node is stale, and in every such state that an operation
passes through there, a refresh by data types asks the callback once for every type that uses one of
them, by id and with the definition stored before; the last answer for a type is stored, every node
is bound to the definition stored for its type and is otherwise as before, and the report counts the
answers and the nodes of their types. -/
theorem Reachable.dataTypesRefreshed (hr : Reachable kind options r) {ρ : Type}
    (ids : List DataTypeId) (resolve : ρ → ContentType → ρ × Option ContentType) (c : ρ) :
    (r.store.live.Fresh → ∃ asked, r.store.live.DataTypesRefreshed ids resolve c asked
        (r.store.updateDataTypes ids resolve c).1.live (r.store.updateDataTypes ids resolve c).2.1
        (r.store.updateDataTypes ids resolve c).2.2) ∧
      ∀ l, Edits r.store.live l → l.Fresh → ∃ asked, l.DataTypesRefreshed ids resolve c asked
        (Retype.updateDataTypes l ids resolve c).1 (Retype.updateDataTypes l ids resolve c).2.1
        (Retype.updateDataTypes l ids resolve c).2.2 := by
  have hindexed := (hr.keeps LiveContent.indexed_invariant LiveContent.indexed_empty).1
  refine ⟨fun hfresh ↦ ?_, fun l hedits hfresh ↦
    (LiveContent.indexed_invariant.edits hindexed hedits).refreshed_updateDataTypes hfresh ids
      resolve c⟩
  obtain ⟨hlive, hanswer⟩ := hr.updateDataTypes_eq ids resolve c
  rw [hlive, hanswer]
  exact hindexed.refreshed_updateDataTypes hfresh ids resolve c

/-- Four types, of which all but the third use one data type; a page of each of the first two, and
two pages of the third. -/
def propertiesTyped : RecordedStore :=
  let type (id : ContentTypeId) (handle : String) (dataType : DataTypeId) : ContentType :=
    (ContentType.new id handle .content).withProperty "p" dataType ""
  begunWith
    [.setAllTypes [type ⟨1⟩ "a" ⟨8⟩, type ⟨2⟩ "b" ⟨8⟩, type ⟨3⟩ "c" ⟨9⟩, type ⟨4⟩ "d" ⟨8⟩],
      pageAt ⟨1⟩ ⟨1⟩ none, pageAt ⟨2⟩ ⟨2⟩ (some ⟨1⟩), pageAt ⟨3⟩ ⟨3⟩ (some ⟨2⟩),
      pageAt ⟨4⟩ ⟨3⟩ none]

/-- A callback that notes what it is asked for, gives no definition of the fourth type, and gives
those of all others for the third. -/
def redirect (noted : List ContentTypeId) (d : ContentType) :
    List ContentTypeId × Option ContentType :=
  (noted ++ [d.id], if d.id = ⟨4⟩ then none else some { d with id := ⟨3⟩ })

/-- The callback is asked for three types and answers twice, for the third one, so that both pages
of it are bound twice. -/
theorem Reachable.dataTypesRefreshed_redirect :
    propertiesTyped.store.live.Fresh ∧
      (propertiesTyped.store.updateDataTypes [⟨8⟩, ⟨8⟩] redirect []).2 =
        ([⟨1⟩, ⟨2⟩, ⟨4⟩],
          { removedTypes := 0, refreshedTypes := 2, removedNodes := 0, reboundNodes := 4,
            kits := LoadReport.zero }) ∧
      ∃ asked, propertiesTyped.store.live.DataTypesRefreshed [⟨8⟩, ⟨8⟩] redirect [] asked
        (propertiesTyped.store.updateDataTypes [⟨8⟩, ⟨8⟩] redirect []).1.live
        (propertiesTyped.store.updateDataTypes [⟨8⟩, ⟨8⟩] redirect []).2.1
        (propertiesTyped.store.updateDataTypes [⟨8⟩, ⟨8⟩] redirect []).2.2 := by
  have hr : Reachable .content StoreOptions.default propertiesTyped := reachable_begunWith _
  have hfresh : propertiesTyped.store.live.Fresh := by decide +kernel
  exact ⟨hfresh, by decide +kernel, (hr.dataTypesRefreshed [⟨8⟩, ⟨8⟩] redirect []).1 hfresh⟩

end RecordedStore

end VersionedContent
