import VersionedContent.Proofs.ParentWalks
import VersionedContent.Proofs.TypeHandles

/-!
# What removals leave

Removing a node leaves exactly what is not below it, as it was but for the mention of what is gone
(`ContentView.Keeps`), and gives the number of nodes that went. Removing content types leaves what
is below no node of any of them. So the order in which types are removed makes no difference to the
state or to the report (`LiveContent.Sound.updateTypes_perm`).
-/

set_option autoImplicit false

namespace VersionedContent

open LiveTables

/-! ### Part of a tree -/

/-- The node with only some of its children. -/
def ContentNode.keeping (n : ContentNode) (kept : ContentId → Bool) : ContentNode :=
  { n with childIds := n.childIds.filter kept }

namespace ContentView

variable {v w u : ContentView} {kept other : ContentId → Bool} {id x top c : ContentId}
variable {tops : List ContentId}

/-- A tree with only some of the nodes of another: the others are gone from the table of nodes, from
the child lists and from the roots. -/
structure Keeps (v w : ContentView) (kept : ContentId → Bool) : Prop where
  node?_eq : ∀ id, w.node? id = if kept id then (v.node? id).map (·.keeping kept) else none
  mem_roots_iff : ∀ id, id ∈ w.roots ↔ id ∈ v.roots ∧ kept id = true

theorem keeps_all (hall : ∀ id, kept id = true) : v.Keeps v kept where
  node?_eq id := by
    have hsame : ∀ n : ContentNode, n.keeping kept = n := fun n ↦ by
      rw [ContentNode.keeping, List.filter_eq_self.mpr fun c _ ↦ hall c]
    simp [hall, hsame]
  mem_roots_iff id := by simp [hall]

theorem Keeps.trans (h : v.Keeps w kept) (hnext : w.Keeps u other) :
    v.Keeps u fun id ↦ kept id && other id where
  node?_eq id := by
    have hboth : ∀ n : ContentNode,
        (n.keeping kept).keeping other = n.keeping fun id ↦ kept id && other id := fun n ↦ by
      simp only [ContentNode.keeping, List.filter_filter, Bool.and_comm]
    rw [hnext.node?_eq, h.node?_eq]
    cases kept id <;> cases other id <;> simp [Function.comp_def, hboth]
  mem_roots_iff id := by
    rw [hnext.mem_roots_iff, h.mem_roots_iff, Bool.and_eq_true, and_assoc]

/-- Which ids are kept matters for those of nodes only. -/
theorem Keeps.congr (h : v.Keeps w kept) (hlinked : v.Linked)
    (hsame : ∀ id n, v.node? id = some n → kept id = other id) : v.Keeps w other where
  node?_eq id := by
    rw [h.node?_eq]
    cases hn : v.node? id with
    | none => simp
    | some n =>
      have hchildren : n.keeping kept = n.keeping other := by
        refine congrArg (fun children ↦ { n with childIds := children }) ?_
        refine List.filter_congr fun c hc ↦ ?_
        obtain ⟨m, hm⟩ := exists_node?_of_linkOf ((hlinked.mem_childIds_iff hn c).mp hc)
        exact hsame c m hm
      rw [hsame id n hn, Option.map_some, Option.map_some, hchildren]
  mem_roots_iff id := by
    rw [h.mem_roots_iff]
    refine and_congr_right fun hroot ↦ ?_
    obtain ⟨n, hn⟩ := exists_node?_of_linkOf ((hlinked.mem_roots_iff id).mp hroot)
    rw [hsame id n hn]

theorem Keeps.of_nodes_eq (h : v.Keeps w kept) (hnodes : u.nodes = w.nodes)
    (hroots : u.roots = w.roots) : v.Keeps u kept where
  node?_eq id := by rw [node?, hnodes]; exact h.node?_eq id
  mem_roots_iff id := by rw [hroots]; exact h.mem_roots_iff id

/-- The kept nodes make the tree. -/
theorem Keeps.nodes_eq (h : v.Keeps w kept) (h' : v.Keeps u kept) : w.nodes = u.nodes :=
  Std.ExtTreeMap.ext_getElem? fun id ↦ (h.node?_eq id).trans (h'.node?_eq id).symm

theorem Keeps.roots_eq (h : v.Keeps w kept) (h' : v.Keeps u kept) : w.roots = u.roots :=
  Std.ExtTreeMap.ext_mem_unit fun id ↦ (h.mem_roots_iff id).trans (h'.mem_roots_iff id).symm

/-- Kept nodes are bound to the definitions they were bound to. -/
theorem Keeps.typeOf_eq (h : v.Keeps w kept) (id : ContentId) :
    w.typeOf id = if kept id then v.typeOf id else none := by
  rw [typeOf, bindingOf, h.node?_eq, typeOf, bindingOf]
  cases kept id <;> cases v.node? id <;> rfl

/-- A walk that leads through kept nodes only is the same among them. -/
theorem Keeps.climb_eq (h : v.Keeps w kept) (hup : ∀ c, v.Below c x → kept c = true) (steps : Nat) :
    w.climb steps x = v.climb steps x := by
  induction steps with
  | zero => rfl
  | succ steps ih =>
    rw [climb, climb, ih]
    cases hc : v.climb steps x with
    | none => rfl
    | some c =>
      rw [Option.bind_some, Option.bind_some, h.node?_eq, if_pos (hup c ⟨steps, hc⟩)]
      cases v.node? c <;> rfl

theorem Keeps.below_iff (h : v.Keeps w kept) (hup : ∀ c, v.Below c x → kept c = true) :
    w.Below top x ↔ v.Below top x := by
  simp only [Below, h.climb_eq hup]

/-! ### What is outside of branches -/

theorem Below.trans (h : v.Below c x) (htop : v.Below top c) : v.Below top x := by
  obtain ⟨first, hfirst⟩ := h
  obtain ⟨second, hsecond⟩ := htop
  exact ⟨first + second, by rw [climb_add, hfirst, Option.bind_some, hsecond]⟩

instance (v : ContentView) (top id : ContentId) : Decidable (v.Below top id) :=
  decidable_of_iff (Edit.isAncestor (LiveContent.mk v TypeIndex.empty) top id = true)
    (isAncestor_iff (LiveContent.mk v TypeIndex.empty) top id)

/-- Whether an id is below none of some others. -/
def outside (v : ContentView) (tops : List ContentId) (id : ContentId) : Bool :=
  decide (∀ top ∈ tops, ¬v.Below top id)

theorem outside_iff : v.outside tops id = true ↔ ∀ top ∈ tops, ¬v.Below top id :=
  decide_eq_true_iff

/-- What is above an id outside of branches is outside of them. -/
theorem outside_of_below (h : v.outside tops x = true) (c : ContentId) (hc : v.Below c x) :
    v.outside tops c = true :=
  outside_iff.mpr fun top htop hbelow ↦ outside_iff.mp h top htop (hc.trans hbelow)

/-- Outside of the branches that go first, the same is below the other ones before and after. -/
theorem Keeps.outside_append (h : v.Keeps w (v.outside tops)) {more : List ContentId} :
    (v.outside tops x && w.outside more x) = v.outside (tops ++ more) x := by
  have happend : v.outside (tops ++ more) x = true ↔
      v.outside tops x = true ∧ ∀ top ∈ more, ¬v.Below top x := by
    rw [outside_iff, List.forall_mem_append, outside_iff]
  rw [Bool.eq_iff_iff, Bool.and_eq_true, happend]
  refine and_congr_right fun hfirst ↦ ?_
  simp only [outside_iff, h.below_iff (outside_of_below hfirst)]

end ContentView

namespace LiveContent

open ContentView

variable {s t : LiveContent} {id x c : ContentId} {n m : ContentNode}

theorem withoutChild_of_not_mem (h : c ∉ n.childIds) : n.withoutChild c = n := by
  have hsame : n.childIds.filter (· ≠ c) = n.childIds :=
    List.filter_eq_self.mpr fun d hd ↦ decide_eq_true fun heq ↦ h (heq ▸ hd)
  rw [ContentNode.withoutChild, hsame]

/-- Detaching a node takes it out of the one child list that it is in. -/
theorem node?_detach (h : s.view.Linked) (hn : s.view.node? id = some n) (x : ContentId) :
    (Edit.detach s id n.parentId).view.node? x = (s.view.node? x).map (·.withoutChild id) := by
  have hlink : s.view.linkOf id = some n.parentId := by rw [linkOf, hn, Option.map_some]
  have hothers : n.parentId ≠ some x → (s.view.node? x).map (·.withoutChild id) =
      s.view.node? x := by
    intro hne
    cases hm : s.view.node? x with
    | none => rfl
    | some m =>
      have hnot : id ∉ m.childIds := fun hmem ↦ by
        rw [h.mem_childIds_iff hm, hlink] at hmem
        exact hne (Option.some.inj hmem)
      rw [Option.map_some, withoutChild_of_not_mem hnot]
  cases hparent : n.parentId with
  | none => exact (hothers (by simp [hparent])).symm
  | some p =>
    obtain ⟨parent, hp⟩ := h.parent_exists (hparent ▸ hlink)
    simp only [Edit.detach, node?_eq, hp]
    rw [node?_setNode, Function.update_apply]
    split_ifs with heq
    · rw [heq, hp, Option.map_some]
    · exact (hothers (by simp [hparent, Ne.symm heq])).symm

/-- Of the children of a node that is not below another one, at most that one is. -/
theorem keeping_outside (h : s.view.Linked) (hm : s.view.node? x = some m)
    (hnot : ¬s.view.Below id x) : m.keeping (s.view.outside [id]) = m.withoutChild id := by
  refine congrArg (fun children ↦ { m with childIds := children }) (List.filter_congr fun c hc ↦ ?_)
  rw [Bool.eq_iff_iff, outside_iff, List.forall_mem_singleton, decide_eq_true_iff]
  refine not_congr ⟨fun hbelow ↦ ?_, fun heq ↦ heq ▸ below_self⟩
  by_contra hne
  obtain ⟨p, hp, hbelow⟩ := hbelow.exists_parent hne
  rw [(h.mem_childIds_iff hm c).mp hc] at hp
  exact hnot (Option.some.inj (Option.some.inj hp) ▸ hbelow)

/-- Removing a node keeps exactly what is not below it. -/
theorem keeps_removeSubtree (h : s.view.Linked) (id : ContentId) :
    s.view.Keeps (Edit.removeSubtree s id).1.view (s.view.outside [id]) := by
  have houtside : ∀ x, s.view.outside [id] x = true ↔ ¬s.view.Below id x := fun x ↦ by
    rw [outside_iff, List.forall_mem_singleton]
  refine ⟨fun x ↦ ?_, fun x ↦ ?_⟩
  · by_cases hbelow : s.view.Below id x
    · rw [h.node?_removeSubtree_of_below hbelow, if_neg fun hkept ↦ (houtside x).mp hkept hbelow]
    · have hchildren : (s.view.node? x).map (·.keeping (s.view.outside [id])) =
          (s.view.node? x).map (·.withoutChild id) := by
        cases hm : s.view.node? x with
        | none => rfl
        | some m => rw [Option.map_some, Option.map_some, keeping_outside h hm hbelow]
      rw [if_pos ((houtside x).mpr hbelow), hchildren]
      cases hn : s.view.node? id with
      | none =>
        have hnot : ∀ m, s.view.node? x = some m → id ∉ m.childIds := fun m hm hmem ↦ by
          obtain ⟨n, hexists⟩ := exists_node?_of_linkOf ((h.mem_childIds_iff hm id).mp hmem)
          simp [hn] at hexists
        simp only [Edit.removeSubtree, node?_eq, hn]
        cases hm : s.view.node? x with
        | none => rfl
        | some m => rw [Option.map_some, withoutChild_of_not_mem (hnot m hm)]
      | some n =>
        have hkept : x ∉ (Edit.branch s ContentId.count id).map ContentNode.id :=
          fun hmem ↦ hbelow (h.mem_map_branch.mp hmem).2
        rw [removeSubtree_fst hn, node?_foldl_forget, if_neg hkept, node?_detach h hn]
  · rw [(h.removeSubtree id).mem_roots_iff, h.linkOf_removeSubtree, houtside, h.mem_roots_iff,
      and_comm]

/-- Removing nodes one after another keeps exactly what is below none of them. -/
theorem keeps_foldl_removeSubtree (h : s.view.Linked) (ids : List ContentId) :
    s.view.Keeps (ids.foldl (fun s id ↦ (Edit.removeSubtree s id).1) s).view
      (s.view.outside ids) := by
  induction ids generalizing s with
  | nil => exact keeps_all fun id ↦ outside_iff.mpr fun top htop ↦ absurd htop List.not_mem_nil
  | cons id ids ih =>
    have hfirst := keeps_removeSubtree h id
    refine (hfirst.trans (ih (h.removeSubtree id))).congr h fun x _ _ ↦ ?_
    exact hfirst.outside_append

theorem keeps_removeType (h : s.view.Linked) (t : ContentTypeId) :
    s.view.Keeps (Retype.removeType s t).1.view (s.view.outside (s.index.nodesOf t)) := by
  obtain ⟨hnodes, hroots, -, -⟩ := dropType_spec (s.withoutNodesOf t) t
  rw [removeType_fst]
  exact (keeps_foldl_removeSubtree (s := LiveTables.setIndex s (s.index.eraseType t)) h
    (s.index.nodesOf t)).of_nodes_eq hnodes hroots

/-- Removing types one after another keeps exactly what is below no node of any of them. -/
theorem Indexed.keeps_removeTypes (h : s.Indexed) (ts : List ContentTypeId) :
    s.view.Keeps (Retype.removeTypes s ts).1.view
      (s.view.outside (ts.flatMap s.index.nodesOf)) := by
  rw [Retype.removeTypes_fst]
  induction ts generalizing s with
  | nil => exact keeps_all fun id ↦ outside_iff.mpr fun top htop ↦ absurd htop List.not_mem_nil
  | cons t ts ih =>
    have hfirst := keeps_removeType h.linked t
    have hnext := h.removeType t
    refine (hfirst.trans (ih hnext)).congr h.linked fun x _ _ ↦ ?_
    rw [hfirst.outside_append, List.flatMap_cons, Bool.eq_iff_iff, outside_iff, outside_iff,
      List.forall_mem_append, List.forall_mem_append]
    refine and_congr_right fun hkept ↦ ?_
    -- what is above an id that stays is of the same type before and after
    have hlisted : ∀ top, s.view.Below top x → ∀ u,
        (top ∈ (Retype.removeType s t).1.index.nodesOf u ↔ top ∈ s.index.nodesOf u) := by
      intro top hbelow u
      have hstays := outside_of_below (outside_iff.mpr hkept) top hbelow
      rw [hnext.lists u, h.lists u, hfirst.typeOf_eq, if_pos hstays]
    simp only [List.mem_flatMap, forall_exists_index, and_imp]
    exact ⟨fun hall top u hu hmem hbelow ↦ hall top u hu ((hlisted top hbelow u).mpr hmem) hbelow,
      fun hall top u hu hmem hbelow ↦ hall top u hu ((hlisted top hbelow u).mp hmem) hbelow⟩

end LiveContent

/-! ### Equal indexes -/

namespace TypeIndex

variable {i j : TypeIndex} {type : ContentTypeId} {id : ContentId}

/-- No type is listed without a node. -/
def Tight (i : TypeIndex) : Prop :=
  ∀ (t : ContentTypeId) (ids : Std.ExtTreeSet ContentId), i.entries[t]? = some ids → ids ≠ ∅

theorem tight_empty : empty.Tight := fun t ids h ↦ by simp [empty] at h

theorem Tight.insert (h : i.Tight) : (i.insert type id).Tight := by
  intro t ids hids
  rw [TypeIndex.insert, Std.ExtTreeMap.getElem?_alter] at hids
  split_ifs at hids
  · rw [← Option.some.inj hids]
    exact Std.ExtTreeSet.insert_ne_empty
  · exact h t ids hids

theorem Tight.erase (h : i.Tight) : (i.erase type id).Tight := by
  intro t ids hids
  rw [TypeIndex.erase, Std.ExtTreeMap.getElem?_alter] at hids
  split_ifs at hids
  · have hkept := (Option.filter_eq_some_iff.mp hids).2
    exact Std.ExtTreeSet.isEmpty_eq_false_iff.mp (by simpa using hkept)
  · exact h t ids hids

theorem Tight.eraseType (h : i.Tight) : (i.eraseType type).Tight := by
  intro t ids hids
  rw [TypeIndex.eraseType, Std.ExtTreeMap.getElem?_erase] at hids
  split_ifs at hids
  exact h t ids hids

theorem Tight.reindex (h : i.Tight) (previous : Option ContentNode) (n : ContentNode) :
    (Edit.reindex i previous n).Tight := by
  unfold Edit.reindex
  cases previous with
  | none => exact h.insert
  | some p =>
    dsimp only
    split_ifs
    · exact h.insert
    · exact h.erase.insert

theorem Tight.exists_mem (h : i.Tight) {ids : Std.ExtTreeSet ContentId}
    (hids : i.entries[type]? = some ids) : ∃ x, x ∈ i.nodesOf type := by
  by_contra hnone
  refine h type ids hids (Std.ExtTreeSet.ext_mem fun x ↦ ?_)
  exact iff_of_false (fun hx ↦ hnone ⟨x, mem_nodesOf.mpr ⟨ids, hids, hx⟩⟩)
    Std.ExtTreeSet.not_mem_empty

/-- Indexes that list the same nodes are equal. -/
theorem Tight.ext (hi : i.Tight) (hj : j.Tight)
    (hlists : ∀ t x, x ∈ i.nodesOf t ↔ x ∈ j.nodesOf t) : i = j := by
  refine congrArg TypeIndex.mk (Std.ExtTreeMap.ext_getElem? fun t ↦ ?_)
  cases hids : i.entries[t]? with
  | none =>
    cases hother : j.entries[t]? with
    | none => rfl
    | some others =>
      obtain ⟨x, hx⟩ := hj.exists_mem hother
      obtain ⟨ids, hsome, -⟩ := mem_nodesOf.mp ((hlists t x).mpr hx)
      simp [hids] at hsome
  | some ids =>
    obtain ⟨y, hy⟩ := hi.exists_mem hids
    obtain ⟨others, hother, -⟩ := mem_nodesOf.mp ((hlists t y).mp hy)
    rw [hother, Option.some.injEq]
    refine Std.ExtTreeSet.ext_mem fun x ↦ ?_
    have hsame := hlists t x
    simpa [mem_nodesOf, hids, hother] using hsame

end TypeIndex

namespace LiveContent

open ContentView

variable {s : LiveContent}

theorem tight_foldl_forget (gone : List ContentNode) (h : s.index.Tight) :
    (gone.foldl Edit.forget s).index.Tight :=
  foldl_keeps (P := fun u : LiveContent ↦ u.index.Tight) (fun _ _ hu ↦ hu.erase) gone h

theorem tight_removeSubtree (h : s.index.Tight) (id : ContentId) :
    (Edit.removeSubtree s id).1.index.Tight := by
  unfold Edit.removeSubtree
  split
  · exact h
  · exact tight_foldl_forget _ ((index_detach s id _).symm ▸ h)

/-- Every operation of a writer leaves no type listed without a node. -/
theorem tight_invariant : EditInvariant fun s : LiveContent ↦ s.index.Tight where
  set {s} h k := by
    unfold Edit.set
    split
    · exact h
    · exact (index_place s k _).symm ▸ h.reindex _ _
  removeSubtree h id := tight_removeSubtree h id
  clearTree _ := TypeIndex.tight_empty
  removeType {s} h t := by
    rw [removeType_fst, (dropType_spec _ t).2.2.1]
    exact foldl_keeps (P := fun u : LiveContent ↦ u.index.Tight)
      (fun _ id hu ↦ tight_removeSubtree hu id) _ h.eraseType
  putType {s} h d := (putType_spec s d).2.2.1.symm ▸ h
  rebindNodes {s} h d except := (index_rebindNodes s d except).symm ▸ h

/-! ### The numbers removed -/

/-- A branch holds no node twice. -/
theorem nodup_branch (h : s.view.Grounded) (bound : Nat) (top : ContentId) :
    ((Edit.branch s bound top).map ContentNode.id).Nodup := by
  induction bound generalizing top with
  | zero => exact List.nodup_nil
  | succ bound ih =>
    rw [Edit.branch, node?_eq]
    cases hm : s.view.node? top with
    | none => exact List.nodup_nil
    | some m =>
      -- what the branch of a child holds is below it, and so further down than the node
      have hdown : ∀ c ∈ m.childIds, ∀ n ∈ Edit.branch s bound c,
          ∃ steps, s.view.climb steps n.id = some c ∧ s.view.climb (steps + 1) n.id = some top := by
        intro c hc n hn
        obtain ⟨-, steps, -, hsteps⟩ := h.linked.mem_branch.mp hn
        have hlink := parentId_eq_some_iff.mpr ((h.linked.mem_childIds_iff hm c).mp hc)
        exact ⟨steps, hsteps, by rw [climb, hsteps]; exact hlink⟩
      rw [List.map_cons, List.nodup_cons, List.map_flatMap, List.nodup_flatMap, h.linked.id_eq hm]
      refine ⟨?_, fun c _ ↦ ih c, ?_⟩
      · simp only [List.mem_flatMap, List.mem_map, not_exists, not_and]
        rintro c hc n hn rfl
        obtain ⟨steps, -, hup⟩ := hdown c hc n hn
        exact absurd (h.climb_injective hup (i := steps + 1) (j := 0) rfl) (Nat.succ_ne_zero steps)
      · refine (h.linked.nodup_childIds hm).imp_of_mem fun {c d} hc hd hne ↦ ?_
        refine List.disjoint_left.mpr ?_
        simp only [List.mem_map, not_exists, not_and]
        rintro x ⟨n, hn, rfl⟩ m hm' heq
        obtain ⟨first, hfirst, hup⟩ := hdown c hc n hn
        obtain ⟨second, hsecond, hup'⟩ := hdown d hd m hm'
        rw [heq] at hsecond hup'
        have hsteps := Nat.succ.inj (h.climb_injective hup hup')
        exact hne (Option.some.inj (hfirst.symm.trans (hsteps ▸ hsecond)))

theorem size_erase_add_one {κ β : Type} [Ord κ] [Std.TransOrd κ] {table : Std.ExtTreeMap κ β}
    {key : κ} {value : β} (h : table[key]? = some value) :
    (table.erase key).size + 1 = table.size := by
  have hmem : key ∈ table := Std.ExtTreeMap.mem_iff_isSome_getElem?.mpr (Option.isSome_of_eq_some h)
  have hpos : 0 < table.size := Nat.pos_of_ne_zero fun hzero ↦ by
    rw [Std.ExtTreeMap.eq_empty_iff_size_eq_zero.mpr hzero] at hmem
    exact Std.ExtTreeMap.not_mem_empty hmem
  rw [Std.ExtTreeMap.size_erase, if_pos (Std.ExtTreeMap.contains_iff_mem.mpr hmem)]
  omega

theorem size_foldl_forget {gone : List ContentNode} (hnodup : (gone.map ContentNode.id).Nodup)
    (hgone : ∀ n ∈ gone, ∃ m, s.view.node? n.id = some m) :
    (gone.foldl Edit.forget s).view.nodes.size + gone.length = s.view.nodes.size := by
  induction gone generalizing s with
  | nil => rfl
  | cons n gone ih =>
    obtain ⟨hnew, hnodup⟩ := List.nodup_cons.mp hnodup
    obtain ⟨⟨m, hm⟩, hrest⟩ := List.forall_mem_cons.mp hgone
    have hsize : (Edit.forget s n).view.nodes.size + 1 = s.view.nodes.size :=
      size_erase_add_one hm
    have hstill : ∀ d ∈ gone, ∃ m, (Edit.forget s n).view.node? d.id = some m := by
      intro d hd
      have hne : d.id ≠ n.id := fun heq ↦ hnew (heq ▸ List.mem_map_of_mem hd)
      rw [Edit.forget, node?_clearNode, Function.update_of_ne hne]
      exact hrest d hd
    have hrest := ih hnodup hstill
    rw [List.foldl_cons, List.length_cons]
    omega

theorem size_detach (s : LiveContent) (id : ContentId) (parent : Option ContentId) :
    (Edit.detach s id parent).view.nodes.size = s.view.nodes.size := by
  cases parent with
  | none => rfl
  | some p =>
    simp only [Edit.detach, node?_eq]
    cases hn : s.view.node? p with
    | none => rfl
    | some n =>
      refine Std.ExtTreeMap.size_insert.trans (if_pos ?_)
      rw [Std.ExtTreeMap.contains_eq_isSome_getElem?, show s.view.nodes[p]? = some n from hn,
        Option.isSome_some]

/-- The number given by a removal is the number of nodes that went. -/
theorem size_removeSubtree (h : s.view.Grounded) (id : ContentId) :
    (Edit.removeSubtree s id).1.view.nodes.size + (Edit.removeSubtree s id).2 =
      s.view.nodes.size := by
  cases hn : s.view.node? id with
  | none => simp only [Edit.removeSubtree, node?_eq, hn, Nat.add_zero]
  | some n =>
    have hexist : ∀ m ∈ Edit.branch s ContentId.count id,
        ∃ d, (Edit.detach s id n.parentId).view.node? m.id = some d := by
      intro m hm
      rw [node?_detach h.linked hn, (h.linked.mem_branch.mp hm).1]
      exact ⟨_, rfl⟩
    have hsize := size_foldl_forget (nodup_branch h ContentId.count id) hexist
    rw [size_detach] at hsize
    simpa only [Edit.removeSubtree, node?_eq, hn] using hsize

/-- The number given by a removal is the number of nodes that went. -/
theorem size_removeEach (h : s.view.Grounded) (ids : List ContentId) :
    (Retype.removeEach s ids).1.view.nodes.size + (Retype.removeEach s ids).2 =
      s.view.nodes.size := by
  have hstep : ∀ (x : LiveContent × Nat) id,
      x.1.view.Grounded ∧ x.1.view.nodes.size + x.2 = s.view.nodes.size →
        (Edit.removeSubtree x.1 id).1.view.Grounded ∧
          (Edit.removeSubtree x.1 id).1.view.nodes.size + (x.2 + (Edit.removeSubtree x.1 id).2) =
            s.view.nodes.size := by
    rintro x id ⟨hgrounded, hbefore⟩
    have hsize := size_removeSubtree hgrounded id
    exact ⟨hgrounded.removeSubtree id, by omega⟩
  exact (foldl_keeps (f := fun (x : LiveContent × Nat) id ↦
    ((Edit.removeSubtree x.1 id).1, x.2 + (Edit.removeSubtree x.1 id).2))
    hstep ids (s := (s, 0)) ⟨h, rfl⟩).2

theorem size_dropType (s : LiveContent) (t : ContentTypeId) :
    (Retype.dropType s t).1.view.types.size + (if (Retype.dropType s t).2 then 1 else 0) =
      s.view.types.size := by
  unfold Retype.dropType
  rw [type?_eq]
  cases hd : s.view.type? t with
  | none => rfl
  | some d =>
    exact size_erase_add_one hd

/-- The numbers given by the removal of a type are those of the nodes and the definitions that
went. -/
theorem size_removeType (h : s.view.Grounded) (t : ContentTypeId) :
    (Retype.removeType s t).1.view.nodes.size + (Retype.removeType s t).2.1 = s.view.nodes.size ∧
      (Retype.removeType s t).1.view.types.size + (if (Retype.removeType s t).2.2 then 1 else 0) =
        s.view.types.size := by
  let start := LiveTables.setIndex s (s.index.eraseType t)
  have hremoved : (Retype.removeEach start (s.index.nodesOf t)).1 = s.withoutNodesOf t :=
    Retype.removeEach_fst _ _
  have htypes : (s.withoutNodesOf t).view.types = s.view.types :=
    congrArg Prod.fst (typeTables_withoutNodesOf s t)
  constructor
  · have hsize := size_removeEach (s := start) h (s.index.nodesOf t)
    rw [hremoved] at hsize
    rw [removeType_fst, (dropType_spec (s.withoutNodesOf t) t).1]
    exact hsize
  · have hsize := size_dropType (s.withoutNodesOf t) t
    rw [htypes, ← hremoved] at hsize
    exact hsize

theorem size_removeTypes (h : s.view.Grounded) (ts : List ContentTypeId) :
    (Retype.removeTypes s ts).1.view.nodes.size + (Retype.removeTypes s ts).2.1 =
        s.view.nodes.size ∧
      (Retype.removeTypes s ts).1.view.types.size + (Retype.removeTypes s ts).2.2 =
        s.view.types.size := by
  have hstep : ∀ (x : LiveContent × Nat × Nat) t,
      x.1.view.Grounded ∧ x.1.view.nodes.size + x.2.1 = s.view.nodes.size ∧
          x.1.view.types.size + x.2.2 = s.view.types.size →
        (Retype.removeType x.1 t).1.view.Grounded ∧
          (Retype.removeType x.1 t).1.view.nodes.size + (x.2.1 + (Retype.removeType x.1 t).2.1) =
            s.view.nodes.size ∧
          (Retype.removeType x.1 t).1.view.types.size +
              (x.2.2 + if (Retype.removeType x.1 t).2.2 then 1 else 0) = s.view.types.size := by
    rintro x t ⟨hgrounded, hnodes, htypes⟩
    obtain ⟨hnodes', htypes'⟩ := size_removeType hgrounded t
    exact ⟨grounded_invariant.removeType hgrounded t, by omega, by omega⟩
  exact (foldl_keeps (f := fun (x : LiveContent × Nat × Nat) t ↦
    ((Retype.removeType x.1 t).1, x.2.1 + (Retype.removeType x.1 t).2.1,
      x.2.2 + if (Retype.removeType x.1 t).2.2 then 1 else 0))
    hstep ts (s := (s, 0, 0)) ⟨h, rfl, rfl⟩).2

/-! ### The order of removals -/

/-- What holds of the plain tables of every writer: the index is exact and lists no type without a
node, and every node is below the top. -/
structure Sound (s : LiveContent) : Prop where
  indexed : s.Indexed
  grounded : s.view.Grounded
  tight : s.index.Tight

theorem sound_empty : LiveContent.empty.Sound :=
  ⟨indexed_empty, grounded_empty, TypeIndex.tight_empty⟩

theorem sound_invariant : EditInvariant Sound where
  set h k := ⟨h.indexed.set k, h.grounded.set k, tight_invariant.set h.tight k⟩
  removeSubtree h id :=
    ⟨h.indexed.removeSubtree id, h.grounded.removeSubtree id, tight_removeSubtree h.tight id⟩
  clearTree h := ⟨indexed_invariant.clearTree h.indexed, grounded_invariant.clearTree h.grounded,
    tight_invariant.clearTree h.tight⟩
  removeType h t := ⟨h.indexed.removeType t, grounded_invariant.removeType h.grounded t,
    tight_invariant.removeType h.tight t⟩
  putType h d := ⟨h.indexed.putType d, grounded_invariant.putType h.grounded d,
    tight_invariant.putType h.tight d⟩
  rebindNodes h d except := ⟨h.indexed.rebindNodes d except,
    grounded_invariant.rebindNodes h.grounded d except,
    tight_invariant.rebindNodes h.tight d except⟩

theorem view_ext {v w : ContentView} (hnodes : v.nodes = w.nodes) (hroots : v.roots = w.roots)
    (htypes : v.type? = w.type?)
    (hnamed : ∀ handle d, v.typeNamed? handle = some d ↔ w.typeNamed? handle = some d) : v = w := by
  have htypes : v.types = w.types := Std.ExtTreeMap.ext_getElem? fun t ↦ congrFun htypes t
  have hhandles : v.typesByHandle = w.typesByHandle :=
    Std.ExtTreeMap.ext_getElem? fun handle ↦ Option.ext fun d ↦ hnamed handle d
  cases v
  cases w
  simp only [ContentView.mk.injEq]
  exact ⟨hnodes, hroots, htypes, hhandles⟩

/-- The order in which types are removed makes no difference to what is left. -/
theorem Sound.removeTypes_fst_perm (h : s.Sound) {ts us : List ContentTypeId} (hperm : ts.Perm us) :
    (Retype.removeTypes s ts).1 = (Retype.removeTypes s us).1 := by
  have hfirst := sound_invariant.removeTypes h ts
  have hsecond := sound_invariant.removeTypes h us
  have hkept : s.view.outside (ts.flatMap s.index.nodesOf) =
      s.view.outside (us.flatMap s.index.nodesOf) := by
    funext id
    rw [Bool.eq_iff_iff, outside_iff, outside_iff]
    exact forall_congr' fun top ↦ imp_congr_left (hperm.flatMap_right _).mem_iff
  have hkeeps := h.indexed.keeps_removeTypes ts
  have hkeeps' := hkept ▸ h.indexed.keeps_removeTypes us
  have hnodes := hkeeps.nodes_eq hkeeps'
  have hview : (Retype.removeTypes s ts).1.view = (Retype.removeTypes s us).1.view := by
    refine view_ext hnodes (hkeeps.roots_eq hkeeps') (funext fun t ↦ ?_) fun handle d ↦ ?_
    · simp only [type?_removeTypes, hperm.mem_iff]
    · simp only [typeNamed?_removeTypes_iff, hperm.mem_iff]
  have hindex : (Retype.removeTypes s ts).1.index = (Retype.removeTypes s us).1.index := by
    refine hfirst.tight.ext hsecond.tight fun t x ↦ ?_
    rw [hfirst.indexed.lists t, hsecond.indexed.lists t, hview]
  calc (Retype.removeTypes s ts).1
      = ⟨(Retype.removeTypes s ts).1.view, (Retype.removeTypes s ts).1.index⟩ := rfl
    _ = ⟨(Retype.removeTypes s us).1.view, (Retype.removeTypes s us).1.index⟩ := by
      rw [hview, hindex]
    _ = (Retype.removeTypes s us).1 := rfl

theorem Sound.removeTypes_perm (h : s.Sound) {ts us : List ContentTypeId} (hperm : ts.Perm us) :
    Retype.removeTypes s ts = Retype.removeTypes s us := by
  have hstate := h.removeTypes_fst_perm hperm
  obtain ⟨hnodes, htypes⟩ := size_removeTypes h.grounded ts
  obtain ⟨hnodes', htypes'⟩ := size_removeTypes h.grounded us
  rw [hstate] at hnodes htypes
  exact Prod.ext hstate (Prod.ext (by omega) (by omega))

/-- The order in which a change of types lists the types that it removes makes no difference: it
leaves the same state and gives the same report. -/
theorem Sound.updateTypes_perm (h : s.Sound) {removed others : List ContentTypeId}
    (hperm : removed.Perm others) (refreshed : List ContentType) (ks : List ContentKit) :
    Retype.updateTypes s removed refreshed ks = Retype.updateTypes s others refreshed ks := by
  unfold Retype.updateTypes
  rw [h.removeTypes_perm hperm]

end LiveContent

end VersionedContent
