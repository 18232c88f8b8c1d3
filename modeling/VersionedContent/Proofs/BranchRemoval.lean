import Mathlib.Data.List.Sort
import VersionedContent.Proofs.KitPlacement
import VersionedContent.Proofs.TypedNodes

/-!
# Removing a branch

A branch is removed by a loop over a stack of nodes: the children of the node on top are looked up,
the node is dropped, and the children take its place. While the links agree and every node is below
the top, the loop meets every node of the branch once and no other node, so it ends after as many
rounds as there are nodes in the branch (`LiveContent.Sound.drains_removeSubtree`). What is left is
the tree without the branch: only the parent of its first node is rewritten, which loses that node
from its children (`RecordedStore.Reachable.branchCleared`).
-/

set_option autoImplicit false

namespace VersionedContent

open LiveTables

/-! ### The loop -/

/-- The loop that drops the nodes of a branch. The nodes still to be dropped are on a stack, the
next one first; the children of a node are looked up before it is dropped and go on top of the
others, the last one first. At the end the stack is empty; the number is that of the rounds. -/
inductive Edit.Drains {σ : Type} [LiveTables σ] : σ → List ContentNode → σ → Nat → Prop
  | done (s : σ) : Drains s [] s 0
  | round {s t : σ} {n : ContentNode} {pending : List ContentNode} {rounds : Nat}
    (h : Drains (forget s n) ((n.childIds.filterMap (node? s)).reverse ++ pending) t rounds) :
    Drains s (n :: pending) t (rounds + 1)

/-- On related states the loop goes through the same rounds and ends in related states. -/
theorem TableSimulation.drains {σ τ : Type} [LiveTables σ] [LiveTables τ] {R : σ → τ → Prop}
    (sim : TableSimulation R) {s : σ} {t t' : τ} {pending : List ContentNode} {rounds : Nat}
    (hdrains : Edit.Drains t pending t' rounds) (h : R s t) :
    ∃ s', Edit.Drains s pending s' rounds ∧ R s' t' := by
  induction hdrains generalizing s with
  | done t => exact ⟨s, .done s, h⟩
  | @round t t' n pending rounds _ ih =>
    obtain ⟨s', hrest, hrelated⟩ := ih (sim.draftSimulation.forget h n)
    have hreads : LiveTables.node? s = LiveTables.node? t := funext (sim.node? h)
    exact ⟨s', .round (hreads ▸ hrest), hrelated⟩

namespace LiveContent

open ContentView

variable {s t u : LiveContent} {id top : ContentId} {n : ContentNode}

/-! ### The order of the rounds -/

theorem ext_tables (hnodes : s.view.nodes = t.view.nodes) (hroots : s.view.roots = t.view.roots)
    (htables : s.typeTables = t.typeTables) (hindex : s.index = t.index) : s = t := by
  obtain ⟨htypes, hhandles⟩ := Prod.ext_iff.mp htables
  obtain ⟨⟨nodes, roots, types, handles⟩, index⟩ := s
  obtain ⟨⟨nodes', roots', types', handles'⟩, index'⟩ := t
  simp only [typeTables] at hnodes hroots htypes hhandles hindex
  subst hnodes hroots htypes hhandles hindex
  rfl

/-- The order in which nodes are dropped makes no difference. -/
theorem foldl_forget_perm (h : s.index.Tight) {gone others : List ContentNode}
    (hperm : gone.Perm others) : gone.foldl Edit.forget s = others.foldl Edit.forget s := by
  refine ext_tables (Std.ExtTreeMap.ext_getElem? fun x ↦ ?_) ?_ ?_ ?_
  · refine (node?_foldl_forget s gone x).trans (Eq.trans ?_ (node?_foldl_forget s others x).symm)
    exact if_congr (hperm.map ContentNode.id).mem_iff rfl rfl
  · rw [roots_foldl_forget, roots_foldl_forget]
  · rw [typeTables_foldl_forget, typeTables_foldl_forget]
  · refine (tight_foldl_forget gone h).ext (tight_foldl_forget others h) fun u x ↦ ?_
    simp only [mem_nodesOf_foldl_forget, hperm.mem_iff]

/-- What is as many steps as a bound below no id is one step less below no child of it. -/
theorem climb_ne_of_mem_childIds (h : s.view.Linked) (hn : s.view.node? top = some n) {bound : Nat}
    (hdeep : ∀ x, s.view.climb (bound + 1) x ≠ some top) {c : ContentId} (hc : c ∈ n.childIds)
    (x : ContentId) : s.view.climb bound x ≠ some c := fun hx ↦ by
  refine hdeep x ?_
  rw [climb, hx]
  exact parentId_eq_some_iff.mpr ((h.mem_childIds_iff hn c).mp hc)

/-- As long as the branches of its children are there, the children of a node are looked up as they
were. -/
theorem filterMap_childIds (h : s.view.Linked) (hn : s.view.node? top = some n) {bound : Nat}
    (hdeep : ∀ x, s.view.climb (bound + 1) x ≠ some top)
    (hstill : ∀ m ∈ n.childIds.flatMap (Edit.branch s bound), u.view.node? m.id = some m) :
    n.childIds.filterMap u.view.node? = n.childIds.filterMap s.view.node? := by
  refine List.filterMap_congr fun c hc ↦ ?_
  obtain ⟨m, hm⟩ := exists_node?_of_linkOf ((h.mem_childIds_iff hn c).mp hc)
  obtain rfl := h.id_eq hm
  have hpos : 0 < bound := Nat.pos_of_ne_zero fun hzero ↦
    climb_ne_of_mem_childIds h hn hdeep hc m.id (hzero ▸ rfl)
  rw [hm]
  exact hstill m (List.mem_flatMap.mpr ⟨m.id, hc, h.mem_branch.mpr ⟨hm, 0, hpos, rfl⟩⟩)

/-- The loop drops the branches of the nodes on top of the stack before it comes to the others.
Assumes: the bound on the depth is large enough, the branches hold no node twice, and all their
nodes are still there. -/
theorem drains_branches (h : s.view.Linked) {bound : Nat} {ids : List ContentId}
    (hdeep : ∀ c ∈ ids, ∀ x, s.view.climb bound x ≠ some c)
    (hnodup : ((ids.flatMap (Edit.branch s bound)).map ContentNode.id).Nodup)
    (htight : u.index.Tight)
    (hstill : ∀ m ∈ ids.flatMap (Edit.branch s bound), u.view.node? m.id = some m)
    {pending : List ContentNode} {rounds : Nat}
    (hrest : Edit.Drains ((ids.flatMap (Edit.branch s bound)).foldl Edit.forget u) pending t
      rounds) :
    Edit.Drains u (ids.filterMap s.view.node? ++ pending) t
      ((ids.flatMap (Edit.branch s bound)).length + rounds) := by
  induction bound generalizing ids u pending rounds with
  | zero =>
    obtain rfl : ids = [] := List.eq_nil_iff_forall_not_mem.mpr fun c hc ↦ hdeep c hc c rfl
    simpa using hrest
  | succ bound ih =>
    induction ids generalizing u rounds with
    | nil => simpa using hrest
    | cons c ids ihids =>
      obtain ⟨hhere, hothers⟩ := List.forall_mem_cons.mp hdeep
      rw [List.flatMap_cons, List.map_append, List.nodup_append] at hnodup
      rw [List.flatMap_cons, List.forall_mem_append] at hstill
      rw [List.flatMap_cons, List.foldl_append] at hrest
      -- dropping the first branch leaves the others as they are
      have hstill' : ∀ m ∈ ids.flatMap (Edit.branch s (bound + 1)),
          ((Edit.branch s (bound + 1) c).foldl Edit.forget u).view.node? m.id = some m := by
        intro m hm
        have hapart : m.id ∉ (Edit.branch s (bound + 1) c).map ContentNode.id := fun hgone ↦
          hnodup.2.2 _ hgone _ (List.mem_map_of_mem hm) rfl
        rw [node?_foldl_forget, if_neg hapart, hstill.2 m hm]
      have hothers := ihids hothers hnodup.2.1 (tight_foldl_forget _ htight) hstill' hrest
      cases hn : s.view.node? c with
      | none =>
        have hbranch : Edit.branch s (bound + 1) c = [] := by rw [Edit.branch, node?_eq, hn]
        simpa [hn, hbranch] using hothers
      | some n =>
        have hbranch : Edit.branch s (bound + 1) c =
            n :: n.childIds.flatMap (Edit.branch s bound) := by rw [Edit.branch, node?_eq, hn]
        rw [hbranch] at hnodup hstill hothers
        obtain ⟨hnew, hnodup⟩ := List.nodup_cons.mp hnodup.1
        have hstill := (List.forall_mem_cons.mp hstill.1).2
        -- the children go on the stack in reverse, which makes no difference to what is dropped
        have hperm : (n.childIds.reverse.flatMap (Edit.branch s bound)).Perm
            (n.childIds.flatMap (Edit.branch s bound)) := n.childIds.reverse_perm.flatMap_right _
        have hround : Edit.Drains (Edit.forget u n)
            (n.childIds.reverse.filterMap s.view.node? ++ (ids.filterMap s.view.node? ++ pending)) t
            ((n.childIds.reverse.flatMap (Edit.branch s bound)).length +
              ((ids.flatMap (Edit.branch s (bound + 1))).length + rounds)) := by
          refine ih ?_ ((hperm.map _).nodup_iff.mpr hnodup) htight.erase ?_ ?_
          · intro d hd
            exact climb_ne_of_mem_childIds h hn hhere (List.mem_reverse.mp hd)
          · intro m hm
            have hmem := hperm.mem_iff.mp hm
            have hne : m.id ≠ n.id := fun heq ↦ hnew (heq ▸ List.mem_map_of_mem hmem)
            rw [Edit.forget, node?_clearNode, Function.update_of_ne hne]
            exact hstill m hmem
          · rw [foldl_forget_perm htight.erase hperm]
            exact hothers
        rw [List.filterMap_reverse, ← filterMap_childIds h hn hhere hstill] at hround
        have hrounds : ((c :: ids).flatMap (Edit.branch s (bound + 1))).length + rounds =
            (n.childIds.reverse.flatMap (Edit.branch s bound)).length +
              ((ids.flatMap (Edit.branch s (bound + 1))).length + rounds) + 1 := by
          rw [List.flatMap_cons, hbranch, List.length_append, List.length_cons, hperm.length_eq]
          omega
        rw [hrounds, List.filterMap_cons_some hn]
        exact .round hround

/-- The parent of a node is not below it. -/
theorem not_below_parent (h : s.view.Grounded) {p : ContentId}
    (hp : s.view.linkOf id = some (some p)) : ¬s.view.Below id p := by
  rintro ⟨steps, hsteps⟩
  have hup : s.view.climb 1 id = some p := by simpa [climb] using parentId_eq_some_iff.mpr hp
  have hround : s.view.climb (1 + steps) id = some id := by
    rw [climb_add, hup, Option.bind_some, hsteps]
  have := h.climb_injective hround (j := 0) rfl
  omega

/-- The loop that starts with a node that has been detached drops its whole branch and nothing else,
in as many rounds as the branch has nodes. -/
theorem Sound.drains_removeSubtree (h : s.Sound) (hn : s.view.node? id = some n) :
    Edit.Drains (Edit.detach s id n.parentId) [n] (Edit.removeSubtree s id).1
      (Edit.removeSubtree s id).2 := by
  have hlinked := h.grounded.linked
  have hdeep : ∀ x, s.view.climb ContentId.count x ≠ some id := fun x hx ↦ by
    obtain ⟨steps, hlt, hsteps⟩ := Below.exists_lt_count ⟨_, hx⟩
    exact hlt.ne (h.grounded.climb_injective hsteps hx)
  have hstill : ∀ m ∈ Edit.branch s ContentId.count id,
      (Edit.detach s id n.parentId).view.node? m.id = some m := by
    intro m hm
    obtain ⟨hexists, steps, -, hsteps⟩ := hlinked.mem_branch.mp hm
    have hnot : id ∉ m.childIds := fun hmem ↦
      not_below_parent h.grounded ((hlinked.mem_childIds_iff hexists id).mp hmem) ⟨steps, hsteps⟩
    rw [node?_detach hlinked hn, hexists, Option.map_some, withoutChild_of_not_mem hnot]
  have hdrains : Edit.Drains (Edit.detach s id n.parentId) ([id].filterMap s.view.node? ++ [])
      (([id].flatMap (Edit.branch s ContentId.count)).foldl Edit.forget
        (Edit.detach s id n.parentId))
      (([id].flatMap (Edit.branch s ContentId.count)).length + 0) :=
    drains_branches hlinked (List.forall_mem_singleton.mpr hdeep)
      (by simpa using nodup_branch h.grounded _ id) ((index_detach s id _).symm ▸ h.tight)
      (by simpa using hstill) (.done _)
  have hremoved : Edit.removeSubtree s id =
      ((Edit.branch s ContentId.count id).foldl Edit.forget (Edit.detach s id n.parentId),
        (Edit.branch s ContentId.count id).length) := by
    simp only [Edit.removeSubtree, node?_eq, hn]
  rw [hremoved]
  simpa [hn] using hdrains

/-! ### What is left -/

/-- What a state becomes when a node is removed: the tree without the node and all that is below it,
whether there was such a node, and the number of nodes that went. -/
structure Cleared (s : LiveContent) (id : ContentId) (t : LiveContent) (found : Bool)
    (dropped : Nat) : Prop where
  found_iff : found = true ↔ ∃ n, s.view.node? id = some n
  node?_below : ∀ x, s.view.Below id x → t.view.node? x = none
  /-- The parent loses the node from among its children. The others stay in order. -/
  node?_parent : ∀ n p, s.view.node? id = some n → n.parentId = some p →
    ∃ m, s.view.node? p = some m ∧ id ∈ m.childIds ∧
      t.view.node? p = some { m with childIds := m.childIds.filter (· ≠ id) }
  /-- No other node changes. -/
  node?_other : ∀ x, ¬s.view.Below id x →
    (∀ n, s.view.node? id = some n → n.parentId ≠ some x) → t.view.node? x = s.view.node? x
  mem_roots_iff : ∀ x, x ∈ t.view.roots ↔ x ∈ s.view.roots ∧ ¬s.view.Below id x
  nodesOf_eq : ∀ u, t.index.nodesOf u = (s.index.nodesOf u).filter fun x ↦ ¬s.view.Below id x
  typeTables_eq : t.typeTables = s.typeTables
  /-- Every node that goes is counted once. -/
  dropped_eq : dropped = (s.view.nodes.keys.filter fun x ↦ s.view.Below id x).length
  /-- The loop that drops the nodes ends, after a round for each of them. -/
  drains : ∀ n, s.view.node? id = some n →
    Edit.Drains (Edit.detach s id n.parentId) [n] t dropped

theorem branch_of_none (hn : s.view.node? id = none) (bound : Nat) :
    Edit.branch s bound id = [] := by
  cases bound with
  | zero => rfl
  | succ bound => rw [Edit.branch, node?_eq, hn]

theorem removeSubtree_snd (s : LiveContent) (id : ContentId) :
    (Edit.removeSubtree s id).2 = (Edit.branch s ContentId.count id).length := by
  unfold Edit.removeSubtree
  rw [node?_eq]
  cases hn : s.view.node? id with
  | none => rw [branch_of_none hn, List.length_nil]
  | some n => rfl

/-- A removal counts the nodes that are below the one removed, each once. -/
theorem removeSubtree_snd_eq (h : s.view.Grounded) (id : ContentId) :
    (Edit.removeSubtree s id).2 =
      (s.view.nodes.keys.filter fun x ↦ s.view.Below id x).length := by
  rw [removeSubtree_snd, ← List.length_map (f := ContentNode.id)]
  refine List.Perm.length_eq ((List.perm_ext_iff_of_nodup (nodup_branch h _ id)
    (Std.ExtTreeMap.nodup_keys.filter _)).mpr fun x ↦ ?_)
  rw [h.linked.mem_map_branch, List.mem_filter, Std.ExtTreeMap.mem_keys,
    Std.ExtTreeMap.mem_iff_isSome_getElem?, Option.isSome_iff_exists, decide_eq_true_iff]
  rfl

theorem clear_snd_iff (h : s.view.Grounded) (id : ContentId) :
    (Edit.clear s id).2 = true ↔ ∃ n, s.view.node? id = some n := by
  have hfound : (Edit.clear s id).2 = true ↔ 0 < (Edit.branch s ContentId.count id).length := by
    rw [← removeSubtree_snd]
    exact decide_eq_true_iff
  rw [hfound, ← List.length_map (f := ContentNode.id), List.length_pos_iff_exists_mem]
  constructor
  · rintro ⟨x, hx⟩
    obtain ⟨⟨n, hn⟩, hbelow⟩ := h.linked.mem_map_branch.mp hx
    by_contra hnone
    rw [branch_of_none (Option.eq_none_iff_forall_ne_some.mpr fun m hm ↦ hnone ⟨m, hm⟩)] at hx
    exact List.not_mem_nil hx
  · rintro hn
    exact ⟨id, h.linked.mem_map_branch.mpr ⟨hn, below_self⟩⟩

/-- Each type keeps the nodes outside of the branch, in order. -/
theorem Indexed.nodesOf_removeSubtree (h : s.Indexed) (id : ContentId) (u : ContentTypeId) :
    (Edit.removeSubtree s id).1.index.nodesOf u =
      (s.index.nodesOf u).filter fun x ↦ ¬s.view.Below id x := by
  have : Std.Asymm fun a b : ContentId ↦ a.val < b.val := ⟨fun _ _ ↦ UInt32.lt_asymm⟩
  refine (TypeIndex.pairwise_nodesOf _ u).eq_of_mem_iff
    ((TypeIndex.pairwise_nodesOf _ u).filter _) fun x ↦ ?_
  rw [mem_nodesOf_removeSubtree h.linked, List.mem_filter, decide_eq_true_iff]
  refine and_congr_right fun hx ↦ not_congr ?_
  exact and_iff_left ((h.lists u x).mp hx)

/-- What is not below a node that is removed only loses it as a child. -/
theorem node?_removeSubtree (h : s.view.Linked) {x : ContentId} (hnot : ¬s.view.Below id x) :
    (Edit.removeSubtree s id).1.view.node? x = (s.view.node? x).map (·.withoutChild id) := by
  have hkept : s.view.outside [id] x = true := by rwa [outside_iff, List.forall_mem_singleton]
  rw [(keeps_removeSubtree h id).node?_eq, if_pos hkept]
  cases hm : s.view.node? x with
  | none => rfl
  | some m => rw [Option.map_some, Option.map_some, keeping_outside h hm hnot]

theorem Sound.cleared (h : s.Sound) (id : ContentId) :
    s.Cleared id (Edit.clear s id).1 (Edit.clear s id).2 (Edit.removeSubtree s id).2 := by
  have hlinked := h.grounded.linked
  exact {
    found_iff := clear_snd_iff h.grounded id
    node?_below := fun x hx ↦ hlinked.node?_removeSubtree_of_below hx
    node?_parent := by
      intro n p hn hp
      have hlink : s.view.linkOf id = some (some p) := by rw [linkOf, hn, Option.map_some, hp]
      obtain ⟨m, hm⟩ := hlinked.parent_exists hlink
      refine ⟨m, hm, (hlinked.mem_childIds_iff hm id).mpr hlink, ?_⟩
      exact (node?_removeSubtree hlinked (not_below_parent h.grounded hlink)).trans
        (congrArg (Option.map _) hm)
    node?_other := by
      intro x hx hother
      refine (node?_removeSubtree hlinked hx).trans ?_
      cases hm : s.view.node? x with
      | none => rfl
      | some m => rw [Option.map_some, withoutChild_of_not_mem (not_mem_childIds hlinked hm hother)]
    mem_roots_iff := by
      intro x
      refine ((keeps_removeSubtree hlinked id).mem_roots_iff x).trans (and_congr_right fun _ ↦ ?_)
      rw [outside_iff, List.forall_mem_singleton]
    nodesOf_eq := h.indexed.nodesOf_removeSubtree id
    typeTables_eq := typeTables_removeSubtree s id
    dropped_eq := removeSubtree_snd_eq h.grounded id
    drains := fun _ hn ↦ h.drains_removeSubtree hn }

end LiveContent

/-! ### In every state of a run -/

namespace RecordedStore

variable {r : RecordedStore} {kind : ItemKind} {options : StoreOptions}

/-- A removal on the versioned tables of a store counts what it counts on the plain tables of the
writer's view. -/
theorem Reachable.removeSubtree_snd (hr : Reachable kind options r) (id : ContentId) :
    (Edit.removeSubtree r.store.writer id).2 = (Edit.removeSubtree r.store.live id).2 :=
  ((ContentWriter.simulation_follows r.store.writer).draftSimulation.removeSubtree
    (ContentWriter.follows_refl hr.faithful.headsLE) id).2

/-- Removing a node removes exactly the node and all that is below it, in every state of a run and
in every state that an operation passes through there. The answer tells whether there was such a
node; the number of nodes that went counts each once. The loop that drops them ends on the versioned
tables of the store, too, and the writer sees afterwards what the removal leaves. -/
theorem Reachable.branchCleared (hr : Reachable kind options r) (id : ContentId) :
    r.store.live.Cleared id (r.store.clear id).1.live (r.store.clear id).2
        (Edit.removeSubtree r.store.writer id).2 ∧
      (∀ n, LiveTables.node? r.store.writer id = some n →
        ∃ w, Edit.Drains (Edit.detach r.store.writer id n.parentId) [n] w
            (Edit.removeSubtree r.store.writer id).2 ∧
          w.live = (r.store.clear id).1.live) ∧
      ∀ l, Edits r.store.live l →
        l.Cleared id (Edit.clear l id).1 (Edit.clear l id).2 (Edit.removeSubtree l id).2 := by
  have hsound := (hr.keeps LiveContent.sound_invariant LiveContent.sound_empty).1
  obtain ⟨-, hlive, hanswer, -⟩ := ContentStore.perform_follows hr.faithful.headsLE (.clear id)
  have hstate : (r.store.clear id).1.live = (Edit.clear r.store.live id).1 := hlive
  have hfound : (r.store.clear id).2 = (Edit.clear r.store.live id).2 :=
    WriterAnswer.found.inj hanswer
  rw [hstate, hfound, hr.removeSubtree_snd]
  refine ⟨hsound.cleared id, fun n hn ↦ ?_,
    fun l hedits ↦ (LiveContent.sound_invariant.edits hsound hedits).cleared id⟩
  have sim := ContentWriter.simulation_follows r.store.writer
  have hfollows := ContentWriter.follows_refl (w := r.store.writer) hr.faithful.headsLE
  have hlive : r.store.live.view.node? id = some n := (sim.node? hfollows id).symm.trans hn
  obtain ⟨w, hdrains, hend⟩ := sim.drains (hsound.drains_removeSubtree hlive)
    (sim.draftSimulation.detach hfollows id n.parentId)
  exact ⟨w, hdrains, hend.live_eq⟩

/-- Removing the upper of two pages removes both, in two rounds; removing the lower one takes it
from the children of the upper one; there is no third page to remove. -/
theorem Reachable.branchCleared_pageExtended :
    (pageExtended.store.clear ⟨1⟩).2 = true ∧
      (∃ w, Edit.Drains (Edit.detach pageExtended.store.writer ⟨1⟩ none)
        [.ofKit page pageType [⟨2⟩]] w 2) ∧
      (pageExtended.store.clear ⟨1⟩).1.live.view.node? ⟨2⟩ = none ∧
      (∃ m, (pageExtended.store.clear ⟨2⟩).1.live.view.node? ⟨1⟩ = some m ∧ m.childIds = []) ∧
      (pageExtended.store.clear ⟨3⟩).2 = false := by
  have hr := reachable_pageExtended
  have hupper : pageExtended.store.live.view.node? ⟨1⟩ = some (.ofKit page pageType [⟨2⟩]) := by
    decide +kernel
  have hlower : (pageExtended.store.live.view.node? ⟨2⟩).map ContentNode.parentId =
      some (some ⟨1⟩) := by
    decide +kernel
  obtain ⟨hcleared, hloop, -⟩ := hr.branchCleared ⟨1⟩
  obtain ⟨n, hn, hparent⟩ := Option.map_eq_some_iff.mp hlower
  obtain ⟨m, hm, -, hrest⟩ := (hr.branchCleared ⟨2⟩).1.node?_parent n ⟨1⟩ hn hparent
  obtain rfl := Option.some.inj (hupper.symm.trans hm)
  refine ⟨hcleared.found_iff.mpr ⟨_, hupper⟩, ?_, hcleared.node?_below ⟨2⟩ ⟨1, by decide +kernel⟩,
    ⟨_, hrest, by decide⟩, ?_⟩
  · obtain ⟨w, hdrains, -⟩ := hloop (.ofKit page pageType [⟨2⟩]) (by decide +kernel)
    have htwo : (Edit.removeSubtree pageExtended.store.writer ⟨1⟩).2 = 2 :=
      hcleared.dropped_eq.trans (by decide +kernel)
    exact ⟨w, htwo ▸ hdrains⟩
  · have hthird : pageExtended.store.live.view.node? ⟨3⟩ = none := by decide +kernel
    rw [← Bool.not_eq_true, (hr.branchCleared ⟨3⟩).1.found_iff, hthird]
    rintro ⟨m, hm⟩
    contradiction

end RecordedStore

end VersionedContent
