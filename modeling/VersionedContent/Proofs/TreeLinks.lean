import Mathlib.Data.Fintype.Pigeonhole
import Mathlib.Tactic.WLOG
import VersionedContent.Proofs.PlainEdits

/-!
# Agreement of the links of a tree

A tree is held three times over: nodes name their parent, parents list their children, and the roots
are a table of their own. `ContentView.Linked` says that the three agree. Halfway through an edit
they do not; `ContentView.Listed` then says which parent each node is listed under, whatever parent
it names. Every operation of a writer keeps the tree linked
(`ContentView.linked_invariant`), whatever kits it is given.
-/

set_option autoImplicit false

namespace VersionedContent

open LiveTables

namespace ContentView

/-- The parent that a node names, if the node exists; none inside for a node at the top. -/
def linkOf (v : ContentView) (id : ContentId) : Option (Option ContentId) :=
  (v.node? id).map ContentNode.parentId

/-- The child lists and the roots list every node exactly where a function tells, and list nothing
that the function tells to be nowhere. -/
structure Listed (v : ContentView) (up : ContentId → Option (Option ContentId)) : Prop where
  id_eq : ∀ {id n}, v.node? id = some n → n.id = id
  mem_childIds_iff : ∀ {p n}, v.node? p = some n → ∀ c, c ∈ n.childIds ↔ up c = some (some p)
  nodup_childIds : ∀ {p n}, v.node? p = some n → n.childIds.Nodup
  parent_exists : ∀ {c p}, up c = some (some p) → ∃ n, v.node? p = some n
  mem_roots_iff : ∀ id, id ∈ v.roots ↔ up id = some none

/-- Every node is listed where it says. -/
def Linked (v : ContentView) : Prop := v.Listed v.linkOf

theorem linked_of_no_nodes {v : ContentView} (hnodes : ∀ id, v.node? id = none)
    (hroots : ∀ id, id ∉ v.roots) : v.Linked := by
  refine ⟨?_, ?_, ?_, ?_, ?_⟩
  · intro id n hn
    simp [hnodes] at hn
  · intro p n hn
    simp [hnodes] at hn
  · intro p n hn
    simp [hnodes] at hn
  · intro c p hc
    simp [linkOf, hnodes] at hc
  · intro id
    simp [linkOf, hnodes, hroots]

theorem linked_empty : empty.Linked :=
  linked_of_no_nodes (fun _ ↦ Std.ExtTreeMap.getElem?_empty) fun _ ↦ Std.ExtTreeMap.not_mem_empty

variable {s : LiveContent} {up : ContentId → Option (Option ContentId)}

/-! ### Edits of one node -/

/-- Storing a node over the one with its id changes no listing when it has the same children. -/
theorem Listed.setNode (h : s.view.Listed up) {n : ContentNode}
    (hchildren : n.childIds = Edit.childIds s n.id) :
    (LiveTables.setNode s n.id n).view.Listed up := by
  refine ⟨?_, ?_, ?_, ?_, h.mem_roots_iff⟩
  · intro id m hm
    rcases LiveContent.node?_setNode_cases hm with ⟨heq, rfl⟩ | ⟨-, hold⟩
    · exact heq.symm
    · exact h.id_eq hold
  · intro p m hm c
    rcases LiveContent.node?_setNode_cases hm with ⟨heq, rfl⟩ | ⟨-, hold⟩
    · rw [hchildren, heq]
      cases hprevious : s.view.node? m.id with
      | none =>
        -- a node that did not exist is no parent yet
        have hup : up c ≠ some (some m.id) := fun hc ↦ by
          obtain ⟨parent, hparent⟩ := h.parent_exists hc
          simp [hprevious] at hparent
        simp [Edit.childIds, hprevious, hup]
      | some previous =>
        simpa [Edit.childIds, hprevious] using h.mem_childIds_iff hprevious c
    · exact h.mem_childIds_iff hold c
  · intro p m hm
    rcases LiveContent.node?_setNode_cases hm with ⟨-, rfl⟩ | ⟨-, hold⟩
    · rw [hchildren]
      cases hprevious : s.view.node? m.id with
      | none => simp [Edit.childIds, hprevious]
      | some previous => simpa [Edit.childIds, hprevious] using h.nodup_childIds hprevious
    · exact h.nodup_childIds hold
  · intro c p hc
    obtain ⟨parent, hparent⟩ := h.parent_exists hc
    rw [LiveContent.node?_setNode, Function.update_apply]
    split_ifs
    · exact ⟨n, rfl⟩
    · exact ⟨parent, hparent⟩

/-- Giving a node other children changes where these are listed. -/
theorem Listed.setChildren (h : s.view.Listed up) {p : ContentId} {n : ContentNode}
    (hn : s.view.node? p = some n) {children : List ContentId} (hnodup : children.Nodup)
    {up' : ContentId → Option (Option ContentId)}
    (hchildren : ∀ c, c ∈ children ↔ up' c = some (some p))
    (hothers : ∀ c parent, parent ≠ some p → (up' c = some parent ↔ up c = some parent)) :
    (LiveTables.setNode s p { n with childIds := children }).view.Listed up' := by
  refine ⟨?_, ?_, ?_, ?_, ?_⟩
  · intro id m hm
    rcases LiveContent.node?_setNode_cases hm with ⟨rfl, rfl⟩ | ⟨-, hold⟩
    · show n.id = id
      exact h.id_eq hn
    · exact h.id_eq hold
  · intro q m hm c
    rcases LiveContent.node?_setNode_cases hm with ⟨rfl, rfl⟩ | ⟨hne, hold⟩
    · exact hchildren c
    · exact (h.mem_childIds_iff hold c).trans (hothers c (some q) (by simpa using hne)).symm
  · intro q m hm
    rcases LiveContent.node?_setNode_cases hm with ⟨-, rfl⟩ | ⟨-, hold⟩
    · exact hnodup
    · exact h.nodup_childIds hold
  · intro c q hc
    rw [LiveContent.node?_setNode, Function.update_apply]
    split_ifs with heq
    · exact ⟨_, rfl⟩
    · exact h.parent_exists ((hothers c (some q) (by simpa using heq)).mp hc)
  · intro id
    exact (h.mem_roots_iff id).trans (hothers id none (by simp)).symm

/-- Changing the roots changes which nodes are listed at the top. -/
theorem Listed.setRoots (h : s.view.Listed up) {roots : Std.ExtTreeMap ContentId Unit}
    {up' : ContentId → Option (Option ContentId)}
    (hroots : ∀ c, c ∈ roots ↔ up' c = some none)
    (hothers : ∀ c p, up' c = some (some p) ↔ up c = some (some p)) :
    { s.view with roots }.Listed up' where
  id_eq := h.id_eq
  mem_childIds_iff hn c := (h.mem_childIds_iff hn c).trans (hothers c _).symm
  nodup_childIds := h.nodup_childIds
  parent_exists {c p} hc := h.parent_exists ((hothers c p).mp hc)
  mem_roots_iff := hroots

/-- Attaching a node that is listed nowhere lists it under its parent. -/
theorem Listed.attach (h : s.view.Listed up) {id : ContentId} {parent : Option ContentId}
    (hfree : up id = none) (hparent : ∀ p, parent = some p → ∃ n, s.view.node? p = some n) :
    (Edit.attach s id parent).view.Listed (Function.update up id (some parent)) := by
  cases parent with
  | none =>
    apply h.setRoots
    · intro c
      refine (LiveContent.mem_roots_setRoot s).trans ?_
      rw [h.mem_roots_iff, Function.update_apply]
      split_ifs with heq <;> simp [heq]
    · intro c p
      rw [Function.update_apply]
      split_ifs with heq <;> simp [heq, hfree]
  | some p =>
    obtain ⟨n, hn⟩ := hparent p rfl
    have hnew : id ∉ n.childIds := by simp [h.mem_childIds_iff hn, hfree]
    simp only [Edit.attach, LiveContent.node?_eq, hn, ContentNode.withChild, if_neg hnew]
    refine h.setChildren hn ?_ ?_ ?_
    · refine List.nodup_append.mpr ⟨h.nodup_childIds hn, by simp, ?_⟩
      rintro c hc d hd rfl
      exact hnew (List.mem_singleton.mp hd ▸ hc)
    · intro c
      rw [List.mem_append, List.mem_singleton, h.mem_childIds_iff hn, Function.update_apply]
      split_ifs with heq <;> simp [heq]
    · intro c q hq
      rw [Function.update_apply]
      split_ifs with heq <;> simp [heq, hfree, hq.symm]

/-- Detaching a node that is listed under its parent leaves it listed nowhere. -/
theorem Listed.detach (h : s.view.Listed up) {id : ContentId} {parent : Option ContentId}
    (hup : up id = some parent) :
    (Edit.detach s id parent).view.Listed (Function.update up id none) := by
  cases parent with
  | none =>
    apply h.setRoots
    · intro c
      refine (LiveContent.mem_roots_clearRoot s).trans ?_
      rw [h.mem_roots_iff, Function.update_apply]
      split_ifs with heq <;> simp [heq]
    · intro c p
      rw [Function.update_apply]
      split_ifs with heq <;> simp [heq, hup]
  | some p =>
    obtain ⟨n, hn⟩ := h.parent_exists hup
    simp only [Edit.detach, LiveContent.node?_eq, hn, ContentNode.withoutChild]
    refine h.setChildren hn ((h.nodup_childIds hn).filter _) ?_ ?_
    · intro c
      rw [List.mem_filter, h.mem_childIds_iff hn, Function.update_apply]
      split_ifs with heq <;> simp [heq]
    · intro c q hq
      rw [Function.update_apply]
      split_ifs with heq <;> simp [heq, hup, hq.symm]

theorem exists_node?_of_linkOf {v : ContentView} {id : ContentId} {parent : Option ContentId}
    (h : v.linkOf id = some parent) : ∃ n, v.node? id = some n := by
  obtain ⟨n, hn, -⟩ := Option.map_eq_some_iff.mp h
  exact ⟨n, hn⟩

theorem linkOf_attach (s : LiveContent) (id : ContentId) (parent : Option ContentId) :
    (Edit.attach s id parent).view.linkOf = s.view.linkOf :=
  funext fun x ↦ LiveContent.map_node?_attach s (fun _ _ ↦ rfl) id parent x

theorem linkOf_detach (s : LiveContent) (id : ContentId) (parent : Option ContentId) :
    (Edit.detach s id parent).view.linkOf = s.view.linkOf :=
  funext fun x ↦ LiveContent.map_node?_detach s (fun _ _ ↦ rfl) id parent x

theorem linkOf_store (s : LiveContent) (previous : Option ContentNode) (n : ContentNode) :
    (Edit.store s previous n).view.linkOf =
      Function.update s.view.linkOf n.id (some n.parentId) := by
  funext x
  rw [linkOf, LiveContent.map_node?_store, Function.update_apply]
  rfl

theorem exists_node?_store {p : ContentId} (hp : ∃ n, s.view.node? p = some n)
    (previous : Option ContentNode) (n : ContentNode) :
    ∃ m, (Edit.store s previous n).view.node? p = some m := by
  obtain ⟨m, hm⟩ := hp
  rw [Edit.store, LiveContent.node?_setNode, Function.update_apply]
  split_ifs
  · exact ⟨n, rfl⟩
  · exact ⟨m, hm⟩

/-- A new node under a parent that exists, or at the top, keeps the tree linked. -/
theorem Linked.insert (h : s.view.Linked) {n : ContentNode} (hnew : s.view.node? n.id = none)
    (hchildren : n.childIds = [])
    (hparent : ∀ p, n.parentId = some p → ∃ m, s.view.node? p = some m) :
    (Edit.attach (Edit.store s none n) n.id n.parentId).view.Linked := by
  have hfree : s.view.linkOf n.id = none := by simp [linkOf, hnew]
  have hstored : (Edit.store s none n).view.Listed s.view.linkOf :=
    h.setNode (by simp [Edit.childIds, hnew, hchildren])
  have hattached := hstored.attach hfree fun p hp ↦ exists_node?_store (hparent p hp) none n
  rw [Linked, linkOf_attach, linkOf_store]
  exact hattached

/-- A node with the same parent and the same children as the one it replaces keeps the tree
linked. -/
theorem Linked.update (h : s.view.Linked) {n previous : ContentNode}
    (hprevious : s.view.node? n.id = some previous) (hchildren : n.childIds = previous.childIds)
    (hsame : previous.parentId = n.parentId) :
    (Edit.store s (some previous) n).view.Linked := by
  have hstored : (Edit.store s (some previous) n).view.Listed s.view.linkOf :=
    h.setNode (by simp [Edit.childIds, hprevious, hchildren])
  have hup : s.view.linkOf n.id = some previous.parentId := by simp [linkOf, hprevious]
  have hlinks : Function.update s.view.linkOf n.id (some n.parentId) = s.view.linkOf := by
    rw [← hsame, ← hup, Function.update_eq_self]
  rw [Linked, linkOf_store, hlinks]
  exact hstored

/-- A node that replaces one under another parent, with the same children, keeps the tree linked
once it is detached there and attached here. -/
theorem Linked.move (h : s.view.Linked) {n previous : ContentNode}
    (hprevious : s.view.node? n.id = some previous) (hchildren : n.childIds = previous.childIds)
    (hparent : ∀ p, n.parentId = some p → ∃ m, s.view.node? p = some m) :
    (Edit.attach (Edit.detach (Edit.store s (some previous) n) n.id previous.parentId) n.id
      n.parentId).view.Linked := by
  have hstored : (Edit.store s (some previous) n).view.Listed s.view.linkOf :=
    h.setNode (by simp [Edit.childIds, hprevious, hchildren])
  have hup : s.view.linkOf n.id = some previous.parentId := by simp [linkOf, hprevious]
  have hexists : ∀ p, n.parentId = some p → ∃ m, (Edit.detach (Edit.store s (some previous) n) n.id
      previous.parentId).view.node? p = some m := by
    intro p hp
    obtain ⟨m, hm⟩ := exists_node?_store (hparent p hp) (some previous) n
    have hlink : (Edit.detach (Edit.store s (some previous) n) n.id
        previous.parentId).view.linkOf p = some m.parentId := by
      rw [linkOf_detach, linkOf, hm, Option.map_some]
    exact exists_node?_of_linkOf hlink
  have hattached := (hstored.detach hup).attach (Function.update_self _ _ _) hexists
  rw [Function.update_idem] at hattached
  rw [Linked, linkOf_attach, linkOf_detach, linkOf_store]
  exact hattached

/-- A kit that names no parent or an existing one keeps the tree linked, wherever its node was. -/
theorem Linked.place (h : s.view.Linked) {k : ContentKit} (type : ContentType)
    (hparent : ∀ p, k.parentId = some p → ∃ n, s.view.node? p = some n) :
    (Edit.place s k type).1.view.Linked := by
  unfold Edit.place
  cases hprevious : s.view.node? k.id with
  | none =>
    simp only [LiveContent.node?_eq, hprevious]
    exact h.insert (n := .ofKit k type []) hprevious rfl hparent
  | some previous =>
    simp only [LiveContent.node?_eq, hprevious]
    by_cases hsame : previous.parentId = k.parentId
    · rw [if_pos hsame]
      exact h.update (n := .ofKit k type previous.childIds) hprevious rfl hsame
    · rw [if_neg hsame]
      exact h.move (n := .ofKit k type previous.childIds) hprevious rfl hparent

theorem Linked.set (h : s.view.Linked) (k : ContentKit) : (Edit.set s k).1.view.Linked := by
  unfold Edit.set
  cases hvet : Edit.vet s k with
  | error reason => exact h
  | ok type =>
    have hparent := (Edit.of_vet_eq_ok hvet).2.2
    exact h.place type fun p hp ↦ (hparent p hp).2.1

/-! ### Climbing from node to parent -/

/-- The id a number of steps above another one. -/
def climb (v : ContentView) : Nat → ContentId → Option ContentId
  | 0, id => some id
  | steps + 1, id => (v.climb steps id).bind fun c ↦ (v.node? c).bind ContentNode.parentId

/-- Whether an id is another one or below it. -/
def Below (v : ContentView) (top id : ContentId) : Prop := ∃ steps, v.climb steps id = some top

variable {v : ContentView} {top id : ContentId}

theorem parentId_eq_some_iff {p : ContentId} :
    (v.node? id).bind ContentNode.parentId = some p ↔ v.linkOf id = some (some p) := by
  cases hn : v.node? id <;> simp [linkOf, hn]

theorem climb_add (first second : Nat) :
    v.climb (first + second) id = (v.climb first id).bind (v.climb second) := by
  induction second with
  | zero => simp [climb]
  | succ second ih =>
    rw [← Nat.add_assoc, climb, ih, Option.bind_assoc]
    rfl

theorem below_self : v.Below id id := ⟨0, rfl⟩

theorem Below.of_parent {p : ContentId} (hp : v.linkOf id = some (some p))
    (h : v.Below top p) : v.Below top id := by
  obtain ⟨steps, hsteps⟩ := h
  refine ⟨1 + steps, ?_⟩
  rw [climb_add]
  simpa [climb, parentId_eq_some_iff.mpr hp] using hsteps

theorem Below.exists_parent (h : v.Below top id) (hne : id ≠ top) :
    ∃ p, v.linkOf id = some (some p) ∧ v.Below top p := by
  obtain ⟨steps, hsteps⟩ := h
  cases steps with
  | zero => exact absurd (Option.some.inj hsteps) hne
  | succ steps =>
    rw [Nat.add_comm, climb_add] at hsteps
    obtain ⟨p, hp, hrest⟩ := Option.bind_eq_some_iff.mp hsteps
    exact ⟨p, parentId_eq_some_iff.mp (by simpa [climb] using hp), steps, hrest⟩

/-- Whatever is above an id is met before the walk has taken as many steps as there are ids: a
shortest walk meets no id twice. -/
theorem Below.exists_lt_count (h : v.Below top id) :
    ∃ steps < ContentId.count, v.climb steps id = some top := by
  classical
  refine ⟨Nat.find h, ?_, Nat.find_spec h⟩
  by_contra hlong
  have hreached : ∀ i, i ≤ Nat.find h → ∃ c, v.climb i id = some c ∧
      v.climb (Nat.find h - i) c = some top := by
    intro i hi
    have hspec := Nat.find_spec h
    rw [← Nat.add_sub_cancel' hi, climb_add] at hspec
    exact Option.bind_eq_some_iff.mp hspec
  let seen : Fin (ContentId.count + 1) → Fin UInt32.size := fun i ↦
    ((v.climb i id).getD default).val.toFin
  have hcard : Fintype.card (Fin UInt32.size) < Fintype.card (Fin (ContentId.count + 1)) := by
    rw [Fintype.card_fin, Fintype.card_fin]
    decide
  obtain ⟨i, j, hne, hseen⟩ := Fintype.exists_ne_map_eq_of_card_lt seen hcard
  wlog hlt : i < j generalizing i j
  · exact this j i hne.symm hseen.symm (lt_of_le_of_ne (not_lt.mp hlt) hne.symm)
  obtain ⟨c, hc, -⟩ := hreached i (by omega)
  obtain ⟨d, hd, hrest⟩ := hreached j (by omega)
  have hcd : c = d := by
    simp only [seen, hc, hd, Option.getD_some] at hseen
    cases c
    cases d
    exact congrArg ContentId.mk (UInt32.toFin_inj.mp hseen)
  have hshort : v.climb (i + (Nat.find h - j)) id = some top := by
    rw [climb_add, hc, hcd]
    exact hrest
  have hmin := Nat.find_min' h hshort
  omega

/-- Only the id itself is below one that names no node. -/
theorem Linked.eq_of_below (h : v.Linked) (hnone : v.node? top = none) (hbelow : v.Below top id) :
    id = top := by
  obtain ⟨steps, hsteps⟩ := hbelow
  cases steps with
  | zero => exact Option.some.inj hsteps
  | succ steps =>
    obtain ⟨c, -, hc⟩ := Option.bind_eq_some_iff.mp hsteps
    obtain ⟨n, hn⟩ := h.parent_exists (parentId_eq_some_iff.mp hc)
    rw [hnone] at hn
    contradiction

/-- A node at the top is below itself only. -/
theorem Linked.eq_of_mem_roots (h : v.Linked) (hroot : id ∈ v.roots) (hbelow : v.Below top id) :
    id = top := by
  by_contra hne
  obtain ⟨p, hp, -⟩ := hbelow.exists_parent hne
  simp [(h.mem_roots_iff id).mp hroot] at hp

/-- The branch of a node holds the nodes from which a walk shorter than the bound leads up to it. -/
theorem Linked.mem_branch (h : s.view.Linked) {bound : Nat} {n : ContentNode} :
    n ∈ Edit.branch s bound top ↔
      s.view.node? n.id = some n ∧ ∃ steps < bound, s.view.climb steps n.id = some top := by
  induction bound generalizing top with
  | zero => simp [Edit.branch]
  | succ bound ih =>
    rw [Edit.branch, LiveContent.node?_eq]
    cases hm : s.view.node? top with
    | none =>
      simp only [List.not_mem_nil, false_iff, not_and]
      rintro hn ⟨steps, -, hsteps⟩
      rw [h.eq_of_below hm ⟨steps, hsteps⟩, hm] at hn
      contradiction
    | some m =>
      simp only [List.mem_cons, List.mem_flatMap, ih]
      constructor
      · rintro (rfl | ⟨c, hc, hn, steps, hlt, hsteps⟩)
        · have hid := h.id_eq hm
          exact ⟨hid ▸ hm, 0, Nat.succ_pos bound, congrArg some hid⟩
        · have hlink := parentId_eq_some_iff.mpr ((h.mem_childIds_iff hm c).mp hc)
          exact ⟨hn, steps + 1, Nat.succ_lt_succ hlt, by rw [climb, hsteps]; exact hlink⟩
      · rintro ⟨hn, steps, hlt, hsteps⟩
        cases steps with
        | zero =>
          rw [Option.some.inj hsteps, hm] at hn
          exact Or.inl (Option.some.inj hn).symm
        | succ steps =>
          obtain ⟨c, hc, hlink⟩ := Option.bind_eq_some_iff.mp hsteps
          exact Or.inr ⟨c, (h.mem_childIds_iff hm c).mpr (parentId_eq_some_iff.mp hlink), hn, steps,
            Nat.lt_of_succ_lt_succ hlt, hc⟩

/-! ### Removing a branch -/

/-- The whole branch of a node is removed with it: every node below it, however deep. -/
theorem Linked.mem_map_branch (h : s.view.Linked) {x : ContentId} :
    x ∈ (Edit.branch s ContentId.count top).map ContentNode.id ↔
      (∃ n, s.view.node? x = some n) ∧ s.view.Below top x := by
  rw [List.mem_map]
  constructor
  · rintro ⟨n, hn, rfl⟩
    obtain ⟨hexists, steps, -, hsteps⟩ := h.mem_branch.mp hn
    exact ⟨⟨n, hexists⟩, steps, hsteps⟩
  · rintro ⟨⟨n, hn⟩, hbelow⟩
    obtain rfl := h.id_eq hn
    exact ⟨n, h.mem_branch.mpr ⟨hn, hbelow.exists_lt_count⟩, rfl⟩

/-- Only existing nodes are below an existing one. -/
theorem Below.exists_node? (h : v.Below top id) {n : ContentNode} (hn : v.node? top = some n) :
    ∃ m, v.node? id = some m := by
  by_cases heq : id = top
  · exact ⟨n, heq ▸ hn⟩
  · obtain ⟨p, hp, -⟩ := h.exists_parent heq
    exact exists_node?_of_linkOf hp

theorem Linked.node?_removeSubtree_of_below (h : s.view.Linked) {x : ContentId}
    (hbelow : s.view.Below id x) : (Edit.removeSubtree s id).1.view.node? x = none := by
  unfold Edit.removeSubtree
  cases hn : s.view.node? id with
  | none =>
    simp only [LiveContent.node?_eq, hn]
    rw [h.eq_of_below hn hbelow, hn]
  | some n =>
    have hgone : x ∈ (Edit.branch s ContentId.count id).map ContentNode.id :=
      h.mem_map_branch.mpr ⟨hbelow.exists_node? hn, hbelow⟩
    simp only [LiveContent.node?_eq, hn, LiveContent.node?_foldl_forget, if_pos hgone]

theorem Linked.map_node?_removeSubtree (h : s.view.Linked) {β : Type} {f : ContentNode → β}
    (hf : ∀ n children, f { n with childIds := children } = f n) {x : ContentId}
    (hbelow : ¬s.view.Below id x) :
    ((Edit.removeSubtree s id).1.view.node? x).map f = (s.view.node? x).map f := by
  unfold Edit.removeSubtree
  cases hn : s.view.node? id with
  | none => simp only [LiveContent.node?_eq, hn]
  | some n =>
    have hkept : x ∉ (Edit.branch s ContentId.count id).map ContentNode.id :=
      fun hmem ↦ hbelow (h.mem_map_branch.mp hmem).2
    simp only [LiveContent.node?_eq, hn, LiveContent.node?_foldl_forget, if_neg hkept]
    exact LiveContent.map_node?_detach s hf id n.parentId x

theorem Linked.linkOf_removeSubtree (h : s.view.Linked) {c : ContentId}
    {parent : Option ContentId} :
    (Edit.removeSubtree s id).1.view.linkOf c = some parent ↔
      ¬s.view.Below id c ∧ s.view.linkOf c = some parent := by
  by_cases hbelow : s.view.Below id c
  · simp [linkOf, h.node?_removeSubtree_of_below hbelow, hbelow]
  · simp only [hbelow, not_false_eq_true, true_and, linkOf,
      h.map_node?_removeSubtree (f := ContentNode.parentId) (fun _ _ ↦ rfl) hbelow]

theorem removeSubtree_fst {n : ContentNode} (hn : s.view.node? id = some n) :
    (Edit.removeSubtree s id).1 =
      (Edit.branch s ContentId.count id).foldl Edit.forget (Edit.detach s id n.parentId) := by
  simp only [Edit.removeSubtree, LiveContent.node?_eq, hn]

/-- A node that stays is as the detached branch left it. -/
theorem Linked.of_node?_removeSubtree (h : s.view.Linked) {n : ContentNode}
    (hn : s.view.node? id = some n) {p : ContentId} {m : ContentNode}
    (hm : (Edit.removeSubtree s id).1.view.node? p = some m) :
    ¬s.view.Below id p ∧ (Edit.detach s id n.parentId).view.node? p = some m := by
  constructor
  · intro hbelow
    rw [h.node?_removeSubtree_of_below hbelow] at hm
    contradiction
  · rw [removeSubtree_fst hn, LiveContent.node?_foldl_forget] at hm
    split_ifs at hm
    exact hm

/-- Once a branch is detached, a node is listed under one that stays exactly if it stays itself. -/
theorem Linked.update_linkOf_iff (h : s.view.Linked) (c p : ContentId) :
    ¬s.view.Below id p ∧ Function.update s.view.linkOf id none c = some (some p) ↔
      (Edit.removeSubtree s id).1.view.linkOf c = some (some p) := by
  rw [h.linkOf_removeSubtree, Function.update_apply]
  by_cases hc : c = id
  · simp [hc, below_self]
  · rw [if_neg hc]
    constructor
    · rintro ⟨hp, hlink⟩
      refine ⟨fun hbelow ↦ ?_, hlink⟩
      obtain ⟨q, hq, hbelow⟩ := hbelow.exists_parent hc
      rw [hlink] at hq
      exact hp (Option.some.inj (Option.some.inj hq) ▸ hbelow)
    · rintro ⟨hstays, hlink⟩
      exact ⟨fun hp ↦ hstays (hp.of_parent hlink), hlink⟩

/-- A node at the top stays there unless it is the one removed. -/
theorem Linked.update_linkOf_eq_none_iff (h : s.view.Linked) (c : ContentId) :
    Function.update s.view.linkOf id none c = some none ↔
      (Edit.removeSubtree s id).1.view.linkOf c = some none := by
  rw [h.linkOf_removeSubtree, Function.update_apply]
  by_cases hc : c = id
  · simp [hc, below_self]
  · rw [if_neg hc]
    constructor
    · intro hlink
      refine ⟨fun hbelow ↦ ?_, hlink⟩
      obtain ⟨q, hq, -⟩ := hbelow.exists_parent hc
      rw [hlink] at hq
      simp at hq
    · exact And.right

/-- Removing a branch keeps the tree linked: no node outside it is listed within. -/
theorem Linked.removeSubtree (h : s.view.Linked) (id : ContentId) :
    (Edit.removeSubtree s id).1.view.Linked := by
  cases hn : s.view.node? id with
  | none => simpa only [Edit.removeSubtree, LiveContent.node?_eq, hn] using h
  | some n =>
    have hup : s.view.linkOf id = some n.parentId := by simp [linkOf, hn]
    have hdetached := h.detach hup
    refine ⟨?_, ?_, ?_, ?_, ?_⟩
    · intro x m hm
      exact hdetached.id_eq (h.of_node?_removeSubtree hn hm).2
    · intro p m hm c
      obtain ⟨hstays, hm⟩ := h.of_node?_removeSubtree hn hm
      rw [hdetached.mem_childIds_iff hm c, ← h.update_linkOf_iff]
      exact (and_iff_right hstays).symm
    · intro p m hm
      exact hdetached.nodup_childIds (h.of_node?_removeSubtree hn hm).2
    · intro c p hc
      obtain ⟨hstays, hlink⟩ := (h.update_linkOf_iff c p).mpr hc
      obtain ⟨m, hm⟩ := hdetached.parent_exists hlink
      have hkept : p ∉ (Edit.branch s ContentId.count id).map ContentNode.id :=
        fun hmem ↦ hstays (h.mem_map_branch.mp hmem).2
      exact ⟨m, by rw [removeSubtree_fst hn, LiveContent.node?_foldl_forget, if_neg hkept, hm]⟩
    · intro c
      rw [← h.update_linkOf_eq_none_iff, ← hdetached.mem_roots_iff, removeSubtree_fst hn,
        LiveContent.roots_foldl_forget]

/-! ### Every operation of a writer -/

/-- The links depend on the nodes and the roots only. -/
theorem Linked.congr (h : s.view.Linked) {t : LiveContent} (hnodes : t.view.nodes = s.view.nodes)
    (hroots : t.view.roots = s.view.roots) : t.view.Linked := by
  have hnode : t.view.node? = s.view.node? := by
    funext id
    rw [node?, node?, hnodes]
  unfold Linked linkOf
  refine ⟨?_, ?_, ?_, ?_, ?_⟩
  all_goals simp only [hnode, hroots]
  · exact h.id_eq
  · exact h.mem_childIds_iff
  · exact h.nodup_childIds
  · exact h.parent_exists
  · exact h.mem_roots_iff

theorem Linked.rebindNode (h : s.view.Linked) (type : ContentType) (id : ContentId) :
    (Retype.rebindNode s type id).1.view.Linked := by
  unfold Retype.rebindNode
  cases hn : s.view.node? id with
  | none => simpa only [LiveContent.node?_eq, hn] using h
  | some n =>
    obtain rfl := h.id_eq hn
    simp only [LiveContent.node?_eq, hn]
    have hlinks : (LiveTables.setNode s n.id (n.rebind type)).view.linkOf = s.view.linkOf := by
      funext x
      rw [linkOf, LiveContent.node?_setNode, Function.update_apply]
      split_ifs with heq
      · simp [linkOf, heq, hn, ContentNode.rebind]
      · rfl
    rw [Linked, hlinks]
    exact h.setNode (n := n.rebind type) (by simp [Edit.childIds, ContentNode.rebind, hn])

theorem Linked.removeType (h : s.view.Linked) (id : ContentTypeId) :
    (Retype.removeType s id).1.view.Linked := by
  have hremoved : ∀ ids, (Retype.removeEach (LiveTables.setIndex s
      ((LiveTables.index s).eraseType id)) ids).1.view.Linked := by
    intro ids
    rw [Retype.removeEach_fst]
    exact foldl_keeps (P := fun s : LiveContent ↦ s.view.Linked)
      (fun _ id hs ↦ hs.removeSubtree id) ids h
  unfold Retype.removeType Retype.dropType
  dsimp only
  split
  · exact hremoved _
  · exact (hremoved _).congr rfl rfl

theorem Linked.putType (h : s.view.Linked) (type : ContentType) :
    (Retype.putType s type).view.Linked := by
  unfold Retype.putType
  dsimp only
  split
  · split_ifs
    · exact h.congr rfl rfl
    · exact h.congr rfl rfl
  · exact h.congr rfl rfl

/-- Every operation of a writer keeps the tree linked. -/
theorem linked_invariant : EditInvariant fun s : LiveContent ↦ s.view.Linked where
  set h k := h.set k
  removeSubtree h id := h.removeSubtree id
  clearTree _ := linked_of_no_nodes (fun _ ↦ Std.ExtTreeMap.getElem?_empty)
    fun _ ↦ Std.ExtTreeMap.not_mem_empty
  removeType h id := h.removeType id
  putType h type := h.putType type
  rebindNodes h type except := by
    rw [Retype.rebindNodes_fst]
    exact foldl_keeps (P := fun s : LiveContent ↦ s.view.Linked)
      (fun _ id hs ↦ hs.rebindNode type id) _ h

end ContentView

end VersionedContent
