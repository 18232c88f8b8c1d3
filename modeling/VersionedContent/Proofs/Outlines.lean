import VersionedContent.Outline
import VersionedContent.Proofs.ParentWalks

/-!
# Outlines of a tree

An outline is what the listings of a view say, one below the other. In a tree whose links agree and
whose parents lead up to the top it is the tree: it has each node once, inside the entry of its
parent, siblings in strict order, and down to a number of levels exactly the nodes that have fewer
ancestors (`ContentView.outlined_of_grounded`). This holds of all that held pins show
(`RecordedStore.Reachable.outlined`). The rows of an outline (`OutlineEntry.rowsOf`) are its entries
in the order of its text, each beside the id of the entry that it stands in.
-/

set_option autoImplicit false

namespace VersionedContent

/-! ### The entries of an outline -/

namespace OutlineEntry

/-- The id of the node that an entry shows. -/
def id : OutlineEntry → ContentId
  | .mk id _ _ _ _ _ _ => id

/-- The position of the node that an entry shows among its siblings. -/
def sortOrder : OutlineEntry → Int32
  | .mk _ _ _ _ sortOrder _ _ => sortOrder

/-- The entries that stand directly in an entry. -/
def children : OutlineEntry → List OutlineEntry
  | .mk _ _ _ _ _ _ children => children

/-- Whether an entry tells of a node what it should: all but the entries that stand in it. -/
def Shows (preview : Bool) (n : ContentNode) : OutlineEntry → Prop
  | .mk id name type handle sortOrder published _ =>
    id = n.id ∧ name = n.name? preview ∧ type = n.contentType.id ∧
      handle = n.contentType.handle ∧ sortOrder = n.sortOrder ∧ published = n.published.isSome

/-- Whether an entry stands strictly before another: by sort order, then by id. -/
def Before (a b : OutlineEntry) : Prop :=
  a.sortOrder < b.sortOrder ∨ a.sortOrder = b.sortOrder ∧ a.id.val < b.id.val

mutual

/-- An entry and those below it, each beside the id of the entry that it stands in. -/
def rows (parent : Option ContentId) : OutlineEntry → List (Option ContentId × OutlineEntry)
  | .mk id name type handle sortOrder published children =>
    (parent, .mk id name type handle sortOrder published children) :: rowsOf (some id) children

/-- Several entries and those below them, each beside the id of the entry that it stands in. -/
def rowsOf (parent : Option ContentId) :
    List OutlineEntry → List (Option ContentId × OutlineEntry)
  | [] => []
  | e :: rest => rows parent e ++ rowsOf parent rest

end

theorem rows_eq (parent : Option ContentId) (e : OutlineEntry) :
    rows parent e = (parent, e) :: rowsOf (some e.id) e.children := by
  cases e
  rw [rows]
  rfl

theorem rowsOf_eq_flatMap (parent : Option ContentId) (es : List OutlineEntry) :
    rowsOf parent es = es.flatMap (rows parent) := by
  induction es with
  | nil => rw [rowsOf, List.flatMap_nil]
  | cons e rest ih => rw [rowsOf, ih, List.flatMap_cons]

/-- The id of the node that a row shows. -/
def rowId (row : Option ContentId × OutlineEntry) : ContentId := row.2.id

end OutlineEntry

namespace ContentView

open OutlineEntry

variable {v : ContentView} {preview : Bool} {maxDepth : Option Nat} {bound depth : Nat}
  {n : ContentNode} {parent : Option ContentId}

/-! ### Entries below an entry -/

/-- The nodes shown directly below a node at a depth. -/
def shownBelow (v : ContentView) (maxDepth : Option Nat) (depth : Nat) (n : ContentNode) :
    List ContentNode :=
  if maxDepth.any (· ≤ depth) then [] else v.children n.id

theorem outlineEntry_succ :
    v.outlineEntry preview maxDepth (bound + 1) depth n =
      .mk n.id (n.name? preview) n.contentType.id n.contentType.handle n.sortOrder
        n.published.isSome
        ((v.shownBelow maxDepth depth n).map
          (v.outlineEntry preview maxDepth bound (depth + 1))) := by
  rw [outlineEntry, shownBelow]
  split_ifs <;> rfl

@[simp] theorem id_outlineEntry : (v.outlineEntry preview maxDepth bound depth n).id = n.id := by
  cases bound <;> rw [outlineEntry] <;> rfl

@[simp] theorem sortOrder_outlineEntry :
    (v.outlineEntry preview maxDepth bound depth n).sortOrder = n.sortOrder := by
  cases bound <;> rw [outlineEntry] <;> rfl

theorem shows_outlineEntry : (v.outlineEntry preview maxDepth bound depth n).Shows preview n := by
  cases bound <;> rw [outlineEntry] <;> exact ⟨rfl, rfl, rfl, rfl, rfl, rfl⟩

theorem rows_outlineEntry_zero :
    rows parent (v.outlineEntry preview maxDepth 0 depth n) =
      [(parent, v.outlineEntry preview maxDepth 0 depth n)] := by
  rw [rows_eq, outlineEntry, OutlineEntry.children, rowsOf]

theorem rows_outlineEntry_succ :
    rows parent (v.outlineEntry preview maxDepth (bound + 1) depth n) =
      (parent, v.outlineEntry preview maxDepth (bound + 1) depth n) ::
        (v.shownBelow maxDepth depth n).flatMap fun c ↦
          rows (some n.id) (v.outlineEntry preview maxDepth bound (depth + 1) c) := by
  rw [rows_eq, id_outlineEntry, rowsOf_eq_flatMap, outlineEntry_succ,
    OutlineEntry.children, List.flatMap_map]

/-- Entries stand in the order of the nodes that they show. -/
theorem pairwise_before {nodes : List ContentNode} (hnodes : nodes.Pairwise SiblingLT) :
    (nodes.map (v.outlineEntry preview maxDepth bound depth)).Pairwise Before := by
  refine List.pairwise_map.mpr (hnodes.imp fun {a b} hlt ↦ ?_)
  simpa only [Before, SiblingLT, sortOrder_outlineEntry, id_outlineEntry] using hlt

theorem Linked.pairwise_shownBelow (h : v.Linked) :
    (v.shownBelow maxDepth depth n).Pairwise SiblingLT := by
  unfold shownBelow
  split_ifs
  · exact .nil
  · exact h.pairwise_siblings (h.nodup_childIds_getD n.id)

theorem Linked.mem_shownBelow (h : v.Linked) {c : ContentNode} :
    c ∈ v.shownBelow maxDepth depth n ↔
      (∀ d, maxDepth = some d → depth < d) ∧ v.node? c.id = some c ∧ c.parentId = some n.id := by
  unfold shownBelow
  split_ifs with hcut
  · cases maxDepth with
    | none => simp at hcut
    | some d =>
      have hle : d ≤ depth := by simpa using hcut
      simp [Nat.not_lt.mpr hle]
  · rw [h.mem_children]
    refine ⟨fun hc ↦ ⟨fun d hd ↦ ?_, hc⟩, And.right⟩
    simpa [hd] using hcut

/-- A walk that comes to a node shown directly below another one comes to that one next. -/
theorem Linked.climb_succ_of_mem (h : v.Linked) {c : ContentNode}
    (hc : c ∈ v.shownBelow maxDepth depth n) {steps : Nat} {id : ContentId}
    (hsteps : v.climb steps id = some c.id) : v.climb (steps + 1) id = some n.id := by
  obtain ⟨-, hnode, hparent⟩ := h.mem_shownBelow.mp hc
  rw [climb, hsteps, Option.bind_some, hnode, Option.bind_some, hparent]

/-- Below the entry of a node stand those of the nodes below it, down to the bound and, beneath the
entry itself, to the number of levels asked for. -/
theorem Linked.mem_map_rowId (h : v.Linked) {id : ContentId} :
    id ∈ (rows parent (v.outlineEntry preview maxDepth bound depth n)).map rowId ↔
      ∃ steps ≤ bound, v.climb steps id = some n.id ∧
        ∀ d, maxDepth = some d → steps = 0 ∨ depth + steps ≤ d := by
  induction bound generalizing depth n parent with
  | zero =>
    simp only [rows_outlineEntry_zero, List.map_cons, List.map_nil, List.mem_singleton, rowId,
      id_outlineEntry, Nat.le_zero]
    constructor
    · rintro rfl
      exact ⟨0, rfl, rfl, fun _ _ ↦ Or.inl rfl⟩
    · rintro ⟨_, rfl, hsteps, -⟩
      exact Option.some.inj hsteps
  | succ bound ih =>
    simp only [rows_outlineEntry_succ, List.map_cons, List.map_flatMap, List.mem_cons,
      List.mem_flatMap, ih, rowId, id_outlineEntry]
    constructor
    · rintro (rfl | ⟨c, hc, steps, hle, hsteps, hlevels⟩)
      · exact ⟨0, Nat.zero_le _, rfl, fun _ _ ↦ Or.inl rfl⟩
      · refine ⟨steps + 1, Nat.succ_le_succ hle, h.climb_succ_of_mem hc hsteps,
          fun d hd ↦ Or.inr ?_⟩
        have hdepth := (h.mem_shownBelow.mp hc).1 d hd
        have hrest := hlevels d hd
        lia
    · rintro ⟨_ | steps, hle, hsteps, hlevels⟩
      · exact Or.inl (Option.some.inj hsteps)
      · obtain ⟨x, hx, hup⟩ := Option.bind_eq_some_iff.mp hsteps
        obtain ⟨c, hc, hparent⟩ := Option.bind_eq_some_iff.mp hup
        obtain rfl := h.id_eq hc
        refine Or.inr ⟨c, h.mem_shownBelow.mpr ⟨fun d hd ↦ ?_, hc, hparent⟩, steps,
          Nat.le_of_succ_le_succ hle, hx, fun d hd ↦ ?_⟩ <;>
        · have hlevel := hlevels d hd
          lia

/-- No node has two entries. -/
theorem Grounded.nodup_map_rowId (h : v.Grounded) :
    ((rows parent (v.outlineEntry preview maxDepth bound depth n)).map rowId).Nodup := by
  induction bound generalizing depth n parent with
  | zero => simp [rows_outlineEntry_zero]
  | succ bound ih =>
    -- what stands below a child is further down than the node, by the same number of steps for
    -- each child above it
    have hdown : ∀ c ∈ v.shownBelow maxDepth depth n, ∀ id ∈
        (rows (some n.id) (v.outlineEntry preview maxDepth bound (depth + 1) c)).map rowId,
        ∃ steps, v.climb steps id = some c.id ∧ v.climb (steps + 1) id = some n.id := by
      intro c hc id hid
      obtain ⟨steps, -, hsteps, -⟩ := h.linked.mem_map_rowId.mp hid
      exact ⟨steps, hsteps, h.linked.climb_succ_of_mem hc hsteps⟩
    rw [rows_outlineEntry_succ, List.map_cons, List.nodup_cons, List.map_flatMap,
      List.nodup_flatMap]
    refine ⟨?_, fun c _ ↦ ih, ?_⟩
    · simp only [rowId, id_outlineEntry, List.mem_flatMap, not_exists, not_and]
      intro c hc hid
      obtain ⟨steps, -, hup⟩ := hdown c hc _ hid
      exact absurd (h.climb_injective hup (show v.climb 0 n.id = some n.id from rfl))
        (Nat.succ_ne_zero steps)
    · refine (nodup_of_pairwise_siblingLT h.linked.pairwise_shownBelow).imp_of_mem
        fun {c d} hc hd hne ↦ ?_
      refine List.disjoint_left.mpr fun id hid hid' ↦ ?_
      obtain ⟨steps, hsteps, hup⟩ := hdown c hc id hid
      obtain ⟨other, hother, hup'⟩ := hdown d hd id hid'
      have hsame := h.climb_injective hup hup'
      rw [Nat.add_right_cancel hsame, hother] at hsteps
      have hnode := (h.linked.mem_shownBelow.mp hc).2.1
      rw [← Option.some.inj hsteps, (h.linked.mem_shownBelow.mp hd).2.1] at hnode
      exact hne (Option.some.inj hnode).symm

/-- What a row has to say: its entry shows a node that names the id beside it as its parent, and
what stands in the entry stands in strict order. -/
structure TellsOf (v : ContentView) (preview : Bool) (row : Option ContentId × OutlineEntry)
    (n : ContentNode) : Prop where
  node? : v.node? n.id = some n
  parentId : n.parentId = row.1
  shows : row.2.Shows preview n
  ordered : row.2.children.Pairwise Before

theorem Linked.exists_tellsOf (h : v.Linked) (hn : v.node? n.id = some n)
    {row : Option ContentId × OutlineEntry}
    (hrow : row ∈ rows n.parentId (v.outlineEntry preview maxDepth bound depth n)) :
    ∃ m, v.TellsOf preview row m := by
  induction bound generalizing depth n with
  | zero =>
    rw [rows_outlineEntry_zero, List.mem_singleton] at hrow
    subst hrow
    exact ⟨n, hn, rfl, shows_outlineEntry, by rw [outlineEntry]; exact .nil⟩
  | succ bound ih =>
    rw [rows_outlineEntry_succ, List.mem_cons, List.mem_flatMap] at hrow
    obtain rfl | ⟨c, hc, hrow⟩ := hrow
    · refine ⟨n, hn, rfl, shows_outlineEntry, ?_⟩
      rw [outlineEntry_succ]
      exact pairwise_before h.pairwise_shownBelow
    · obtain ⟨-, hnode, hparent⟩ := h.mem_shownBelow.mp hc
      exact ih hnode (hparent ▸ hrow)

/-- The bound on the levels is of no account once no walk comes to the node from so far below. -/
theorem Linked.outlineEntry_add (h : v.Linked) (hdeep : ∀ id, v.climb (bound + 1) id ≠ some n.id)
    (more : Nat) :
    v.outlineEntry preview maxDepth (bound + more) depth n =
      v.outlineEntry preview maxDepth bound depth n := by
  induction bound generalizing depth n with
  | zero =>
    have hnone : v.shownBelow maxDepth depth n = [] :=
      List.eq_nil_iff_forall_not_mem.mpr fun c hc ↦ hdeep c.id (h.climb_succ_of_mem hc rfl)
    cases more with
    | zero => rfl
    | succ more => rw [Nat.zero_add, outlineEntry_succ, hnone, List.map_nil, outlineEntry]
  | succ bound ih =>
    rw [Nat.succ_add, outlineEntry_succ, outlineEntry_succ]
    congr 1
    exact List.map_congr_left fun c hc ↦ ih fun id hid ↦ hdeep id (h.climb_succ_of_mem hc hid)

/-! ### The whole outline -/

theorem Linked.nodup_map_id_all (h : v.Linked) : (v.all.map ContentNode.id).Nodup := by
  have hids : v.nodes.values.map ContentNode.id = v.nodes.keys := by
    rw [values_eq_map_snd, List.map_map, ← Std.ExtTreeMap.map_fst_toList_eq_keys]
    exact List.map_congr_left fun p hp ↦
      h.id_eq (Std.ExtTreeMap.mem_toList_iff_getElem?_eq_some.mp hp)
  rw [all, ((List.mergeSort_perm _ _).map _).nodup_iff, hids]
  exact Std.ExtTreeMap.nodup_keys

theorem Linked.mem_all (h : v.Linked) : n ∈ v.all ↔ v.node? n.id = some n := by
  rw [all, List.mem_mergeSort, mem_values_iff]
  constructor
  · rintro ⟨key, hkey⟩
    rwa [h.id_eq hkey]
  · exact fun hn ↦ ⟨n.id, hn⟩

/-- A node has as many ancestors as there are steps from it to the top. -/
theorem Grounded.length_ancestors (h : v.Grounded) {id : ContentId} {steps : Nat}
    (hsteps : StepsToTop v.linkOf id steps) : (v.ancestors id).length = steps := by
  have hlength : ∀ i, (v.ancestors id).length ≤ i ↔ v.climb (i + 1) id = none := fun i ↦ by
    rw [← h.getElem?_map_id_ancestors, List.getElem?_eq_none_iff, List.length_map]
  refine Nat.le_antisymm ((hlength steps).mpr (climb_eq_none hsteps (Nat.lt_succ_self steps))) ?_
  by_contra hlt
  obtain ⟨top, htop, -⟩ := exists_climb_of_stepsToTop hsteps
  rw [← Nat.add_sub_cancel' (Nat.not_le.mp hlt), climb_add, (hlength _).mp (Nat.le_refl _)] at htop
  contradiction

/-- A walk that comes to a node at the top has come all the way. -/
theorem Grounded.stepsToTop_of_climb (h : v.Grounded) {top : ContentNode} (htop : top ∈ v.atRoot)
    {id : ContentId} {steps : Nat} (hsteps : v.climb steps id = some top.id) :
    StepsToTop v.linkOf id steps := by
  obtain ⟨hnode, hparent⟩ := (h.linked.mem_atRoot top).mp htop
  have hlink : v.linkOf top.id = some none := by rw [linkOf, hnode, Option.map_some, hparent]
  obtain ⟨m, hm⟩ := Below.exists_node? ⟨steps, hsteps⟩ hnode
  have hbelow : v.linkOf id = some m.parentId := congrArg (Option.map _) hm
  obtain ⟨total, htotal⟩ := h.exists_steps hbelow
  obtain ⟨rest, hrest, rfl⟩ := stepsToTop_climb htotal hsteps
  rwa [stepsToTop_unique hrest (.top hlink)] at htotal

/-- Whether a node has fewer ancestors than there are levels asked for, one at least. -/
def withinDepth (v : ContentView) (maxDepth : Option Nat) (n : ContentNode) : Bool :=
  maxDepth.all fun d ↦ decide ((v.ancestors n.id).length < max d 1)

theorem withinDepth_iff (n : ContentNode) :
    v.withinDepth maxDepth n = true ↔ ∀ d, maxDepth = some d →
      (v.ancestors n.id).length = 0 ∨ 1 + (v.ancestors n.id).length ≤ d := by
  cases maxDepth with
  | none => simp [withinDepth]
  | some d =>
    simp only [withinDepth, Option.all_some, decide_eq_true_iff, Option.some.injEq, forall_eq']
    lia

/-- An outline renders a tree. -/
structure Outlined (v : ContentView) (preview : Bool) (maxDepth : Option Nat) : Prop where
  /-- The recursion ends by itself: the bound on the levels changes nothing. -/
  outline_eq : ∀ bound, v.nodes.size ≤ bound + 1 →
    v.atRoot.map (v.outlineEntry preview maxDepth bound 1) = v.outline preview maxDepth
  /-- Every node with few enough ancestors has one entry, and no other node has. -/
  perm : ((rowsOf none (v.outline preview maxDepth)).map rowId).Perm
    ((v.all.filter (v.withinDepth maxDepth)).map ContentNode.id)
  /-- Every entry shows its node, inside the entry of the parent, and orders what stands in it. -/
  tellsOf : ∀ row ∈ rowsOf none (v.outline preview maxDepth), ∃ n, v.TellsOf preview row n
  ordered : (v.outline preview maxDepth).Pairwise Before

theorem Grounded.outline_eq (h : v.Grounded) (hsize : v.nodes.size ≤ bound + 1) :
    v.atRoot.map (v.outlineEntry preview maxDepth bound 1) = v.outline preview maxDepth := by
  refine List.map_congr_left fun n _ ↦ ?_
  have hbound : ∀ id, v.climb (bound + 1) id ≠ some n.id := fun id hid ↦ by
    rw [h.climb_succ_eq_none (Or.inl hsize)] at hid
    contradiction
  have hcount : ∀ id, v.climb (ContentId.count + 1) id ≠ some n.id := fun id hid ↦ by
    rw [h.climb_succ_eq_none (Or.inr (Nat.le_succ _))] at hid
    contradiction
  rw [← h.linked.outlineEntry_add hbound ContentId.count, Nat.add_comm,
    h.linked.outlineEntry_add hcount bound]

theorem Grounded.mem_map_rowId_outline (h : v.Grounded) {id : ContentId} :
    id ∈ (rowsOf none (v.outline preview maxDepth)).map rowId ↔
      id ∈ (v.all.filter (v.withinDepth maxDepth)).map ContentNode.id := by
  rw [outline, rowsOf_eq_flatMap, List.flatMap_map, List.map_flatMap, List.mem_flatMap,
    List.mem_map]
  simp only [h.linked.mem_map_rowId, List.mem_filter, h.linked.mem_all, withinDepth_iff]
  constructor
  · rintro ⟨top, htop, steps, -, hsteps, hlevels⟩
    have hup := h.stepsToTop_of_climb htop hsteps
    obtain ⟨parent, hlink⟩ := exists_linkOf_of_stepsToTop hup
    obtain ⟨n, hn⟩ := exists_node?_of_linkOf hlink
    obtain rfl := h.linked.id_eq hn
    exact ⟨n, ⟨hn, (h.length_ancestors hup).symm ▸ hlevels⟩, rfl⟩
  · rintro ⟨n, ⟨hn, hlevels⟩, rfl⟩
    have hlink : v.linkOf n.id = some n.parentId := congrArg (Option.map _) hn
    obtain ⟨steps, hup⟩ := h.exists_steps hlink
    obtain ⟨top, hsteps, htop⟩ := exists_climb_of_stepsToTop hup
    obtain ⟨m, hm, hparent⟩ := Option.map_eq_some_iff.mp htop
    obtain rfl := h.linked.id_eq hm
    exact ⟨m, (h.linked.mem_atRoot m).mpr ⟨hm, hparent⟩, steps, (steps_lt_count hup).le, hsteps,
      h.length_ancestors hup ▸ hlevels⟩

theorem Grounded.nodup_map_rowId_outline (h : v.Grounded) :
    ((rowsOf none (v.outline preview maxDepth)).map rowId).Nodup := by
  rw [outline, rowsOf_eq_flatMap, List.flatMap_map, List.map_flatMap, List.nodup_flatMap]
  refine ⟨fun _ _ ↦ h.nodup_map_rowId, ?_⟩
  refine (nodup_of_pairwise_siblingLT h.linked.pairwise_atRoot).imp_of_mem
    fun {a b} ha hb hne ↦ List.disjoint_left.mpr fun id hid hid' ↦ ?_
  obtain ⟨steps, -, hsteps, -⟩ := h.linked.mem_map_rowId.mp hid
  obtain ⟨other, -, hother, -⟩ := h.linked.mem_map_rowId.mp hid'
  -- there is one way up from an id, and so one node at the top of it
  rw [stepsToTop_unique (h.stepsToTop_of_climb ha hsteps) (h.stepsToTop_of_climb hb hother),
    hother] at hsteps
  have hnode := ((h.linked.mem_atRoot a).mp ha).1
  rw [← Option.some.inj hsteps, ((h.linked.mem_atRoot b).mp hb).1] at hnode
  exact hne (Option.some.inj hnode).symm

theorem outlined_of_grounded (h : v.Grounded) : v.Outlined preview maxDepth where
  outline_eq _ := h.outline_eq
  perm := (List.perm_ext_iff_of_nodup h.nodup_map_rowId_outline
    (h.linked.nodup_map_id_all.sublist (List.filter_sublist.map _))).mpr
      fun _ ↦ h.mem_map_rowId_outline
  tellsOf row hrow := by
    rw [outline, rowsOf_eq_flatMap, List.flatMap_map, List.mem_flatMap] at hrow
    obtain ⟨n, hn, hrow⟩ := hrow
    obtain ⟨hnode, hparent⟩ := (h.linked.mem_atRoot n).mp hn
    exact h.linked.exists_tellsOf hnode (hparent ▸ hrow)
  ordered := pairwise_before h.linked.pairwise_atRoot

end ContentView

namespace RecordedStore

/-- In every state of a run, the outlines of what a held pin shows render its tree: they have each
node with few enough ancestors once, inside the entry of its parent, with the name shown at the
setting, its type, position and publication, and siblings in strict order. -/
theorem Reachable.outlined {kind : ItemKind} {options : StoreOptions} {r : RecordedStore}
    (hr : Reachable kind options r) {pin : Pin} (hpin : pin ∈ r.clock.held) (preview : Bool)
    (maxDepth : Option Nat) : (r.store.viewAt pin.generation).Outlined preview maxDepth := by
  obtain ⟨l, hgrounded, hview⟩ :=
    hr.keeps_of_mem_held ContentView.grounded_invariant ContentView.grounded_empty hpin
  rw [← hview]
  exact ContentView.outlined_of_grounded hgrounded

/-- A pin of the page with the one below it. -/
def pageOutlined : RecordedStore :=
  let s := pageExtended.store
  ⟨s.closeSection.snapshot.1, pageExtended.sections ++ [(2, s.live.view)]⟩

theorem reachable_pageOutlined : Reachable .content StoreOptions.default pageOutlined := by
  obtain ⟨s, hs, hsteps⟩ := reachable_pageExtended
  exact ⟨s, hs, (hsteps.tail (.closeSection rfl)).tail .snapshot⟩

/-- The outlines of a tree of two nodes, one below the other: the full one of what is published, and
that of the drafts at the top. -/
theorem Reachable.outlined_pageOutlined :
    ⟨2, 1⟩ ∈ pageOutlined.clock.held ∧
      (pageOutlined.store.viewAt 2).nodes.size = 2 ∧
      (pageOutlined.store.viewAt 2).linkOf ⟨1⟩ = some none ∧
      (pageOutlined.store.viewAt 2).linkOf ⟨2⟩ = some (some ⟨1⟩) ∧
      (pageOutlined.store.viewAt 2).Outlined false none ∧
      (pageOutlined.store.viewAt 2).Outlined true (some 1) := by
  have hpin : (⟨2, 1⟩ : Pin) ∈ pageOutlined.clock.held := by decide +kernel
  exact ⟨hpin, by decide +kernel, by decide +kernel, by decide +kernel,
    reachable_pageOutlined.outlined hpin false none,
    reachable_pageOutlined.outlined hpin true (some 1)⟩

end RecordedStore

end VersionedContent
