import VersionedContent.Proofs.TreeListings
import VersionedContent.Proofs.TypeBinding

/-!
# Walks from a node up to the top

A kit is never applied under the node it describes or below it, so the parents of a tree never run
in a circle: climbing from any node comes to one at the top, in fewer steps than there are nodes
(`ContentView.Grounded`, `ContentView.WalksEnd`). This holds of all that held pins show, and in
every state that an operation of a writer passes through (`RecordedStore.Reachable.walksEnd`). The
walks that check a kit and that list the ancestors of a node are cut off at the number of ids; that
they end by themselves, whatever larger bound they are given, is part of the statement.
-/

set_option autoImplicit false

namespace VersionedContent

/-! ### States within an operation -/

section Edits

variable {σ : Type} [LiveTables σ]

/-- One edit of the kind that every operation of a writer is made of. -/
inductive EditStep : σ → σ → Prop
  | set (s : σ) (k : ContentKit) : EditStep s (Edit.set s k).1
  | removeSubtree (s : σ) (id : ContentId) : EditStep s (Edit.removeSubtree s id).1
  | clearTree (s : σ) :
    EditStep s (LiveTables.setIndex (LiveTables.clearTree s) TypeIndex.empty)
  | removeType (s : σ) (id : ContentTypeId) : EditStep s (Retype.removeType s id).1
  | putType (s : σ) (type : ContentType) : EditStep s (Retype.putType s type)
  | rebindNodes (s : σ) (type : ContentType) (except : List ContentId) :
    EditStep s (Retype.rebindNodes s type except).1

/-- What any number of edits lead to. -/
abbrev Edits : σ → σ → Prop := Relation.ReflTransGen EditStep

variable {s t : σ}

theorem EditInvariant.edits {P : σ → Prop} (inv : EditInvariant P) (h : P s)
    (hedits : Edits s t) : P t := by
  induction hedits with
  | refl => exact h
  | tail _ hstep ih =>
    cases hstep with
    | set k => exact inv.set ih k
    | removeSubtree id => exact inv.removeSubtree ih id
    | clearTree => exact inv.clearTree ih
    | removeType id => exact inv.removeType ih id
    | putType type => exact inv.putType ih type
    | rebindNodes type except => exact inv.rebindNodes ih type except

/-- An operation of a writer is made of edits. -/
theorem edits_run (s : σ) (call : WriterCall) : Edits s (call.run s).1 :=
  EditInvariant.run (P := Edits s)
    { set := fun h k ↦ h.tail (.set _ k)
      removeSubtree := fun h id ↦ h.tail (.removeSubtree _ id)
      clearTree := fun h ↦ h.tail (.clearTree _)
      removeType := fun h id ↦ h.tail (.removeType _ id)
      putType := fun h type ↦ h.tail (.putType _ type)
      rebindNodes := fun h type except ↦ h.tail (.rebindNodes _ type except) }
    .refl call

end Edits

/-! ### Coming to the top -/

/-- Climbing from an id comes to the top after a number of steps. The function tells the parent of
every id that there is, and none inside for an id at the top. -/
inductive StepsToTop (up : ContentId → Option (Option ContentId)) : ContentId → Nat → Prop
  | top {id : ContentId} (h : up id = some none) : StepsToTop up id 0
  | under {id p : ContentId} {steps : Nat} (h : up id = some (some p))
    (hp : StepsToTop up p steps) : StepsToTop up id (steps + 1)

namespace ContentView

variable {v : ContentView} {id x c : ContentId} {steps other : Nat}

/-- The links agree, and climbing from every node comes to the top. -/
structure Grounded (v : ContentView) : Prop where
  linked : v.Linked
  exists_steps : ∀ {id parent}, v.linkOf id = some parent →
    ∃ steps, StepsToTop v.linkOf id steps

theorem stepsToTop_unique {up : ContentId → Option (Option ContentId)}
    (h : StepsToTop up id steps) (hother : StepsToTop up id other) : steps = other := by
  induction h generalizing other with
  | top h =>
    cases hother with
    | top _ => rfl
    | under hunder _ => simp [h] at hunder
  | under h _ ih =>
    cases hother with
    | top htop => simp [h] at htop
    | under hunder hp =>
      obtain rfl := Option.some.inj (Option.some.inj (h.symm.trans hunder))
      exact congrArg (· + 1) (ih hp)

/-- A walk from an id leads through ids that are as much nearer to the top. -/
theorem stepsToTop_climb (h : StepsToTop v.linkOf id steps) {taken : Nat}
    (hc : v.climb taken id = some c) :
    ∃ rest, StepsToTop v.linkOf c rest ∧ taken + rest = steps := by
  induction h generalizing taken with
  | top h =>
    cases taken with
    | zero => exact ⟨0, Option.some.inj hc ▸ .top h, rfl⟩
    | succ taken =>
      rw [Nat.add_comm, climb_add] at hc
      obtain ⟨p, hp, -⟩ := Option.bind_eq_some_iff.mp hc
      have hlink := parentId_eq_some_iff.mp (by simpa [climb] using hp)
      simp [h] at hlink
  | under h hp ih =>
    cases taken with
    | zero => exact ⟨_, Option.some.inj hc ▸ .under h hp, Nat.zero_add _⟩
    | succ taken =>
      rw [Nat.add_comm, climb_add] at hc
      obtain ⟨q, hq, hrest⟩ := Option.bind_eq_some_iff.mp hc
      have hlink := parentId_eq_some_iff.mp (by simpa [climb] using hq)
      obtain rfl := Option.some.inj (Option.some.inj (h.symm.trans hlink))
      obtain ⟨rest, hsteps, hsum⟩ := ih hrest
      exact ⟨rest, hsteps, by omega⟩

theorem exists_climb_of_stepsToTop (h : StepsToTop v.linkOf id steps) :
    ∃ top, v.climb steps id = some top ∧ v.linkOf top = some none := by
  induction h with
  | top h => exact ⟨_, rfl, h⟩
  | under h _ ih =>
    obtain ⟨top, hclimb, htop⟩ := ih
    refine ⟨top, ?_, htop⟩
    rw [Nat.add_comm, climb_add]
    simpa [climb, parentId_eq_some_iff.mpr h] using hclimb

/-- Nothing is above the top. -/
theorem climb_eq_none (h : StepsToTop v.linkOf id steps) {taken : Nat} (hlt : steps < taken) :
    v.climb taken id = none := by
  refine Option.eq_none_iff_forall_ne_some.mpr fun c hc ↦ ?_
  obtain ⟨rest, -, hsum⟩ := stepsToTop_climb h hc
  omega

/-! ### Edits keep every node below the top -/

/-- What is not below an id is as far from the top whatever is above that id. -/
theorem stepsToTop_update_of_not_below {l : Option (Option ContentId)}
    (h : StepsToTop v.linkOf x steps) (hnot : ¬v.Below id x) :
    StepsToTop (Function.update v.linkOf id l) x steps := by
  induction h with
  | @top x h =>
    have hne : x ≠ id := fun heq ↦ hnot (heq ▸ below_self)
    exact .top ((Function.update_of_ne hne _ _).trans h)
  | @under x p _ h _ ih =>
    have hne : x ≠ id := fun heq ↦ hnot (heq ▸ below_self)
    exact .under ((Function.update_of_ne hne _ _).trans h)
      (ih fun hbelow ↦ hnot (hbelow.of_parent h))

/-- Once an id is below the top by its new parent, all that was below the top still is. -/
theorem exists_stepsToTop_update {up : ContentId → Option (Option ContentId)}
    {l : Option (Option ContentId)} (hid : ∃ steps, StepsToTop (Function.update up id l) id steps)
    (h : StepsToTop up x steps) : ∃ steps, StepsToTop (Function.update up id l) x steps := by
  induction h with
  | @top x h =>
    by_cases heq : x = id
    · exact heq ▸ hid
    · exact ⟨0, .top ((Function.update_of_ne heq _ _).trans h)⟩
  | @under x p _ h _ ih =>
    by_cases heq : x = id
    · exact heq ▸ hid
    · obtain ⟨steps, hsteps⟩ := ih
      exact ⟨steps + 1, .under ((Function.update_of_ne heq _ _).trans h) hsteps⟩

variable {s : LiveContent}

/-- The ids that a walk meets, one for every step. -/
theorem getElem?_pathUp (s : LiveContent) (bound : Nat) (id : ContentId) (i : Nat) :
    (Edit.pathUp s bound id)[i]? = if i < bound then s.view.climb i id else none := by
  induction bound generalizing id i with
  | zero => simp [Edit.pathUp]
  | succ bound ih =>
    rw [Edit.pathUp, LiveContent.node?_eq]
    cases i with
    | zero => simp [climb]
    | succ i =>
      rw [List.getElem?_cons_succ, Nat.add_comm i 1, climb_add, climb, climb, Option.bind_some]
      cases (s.view.node? id).bind ContentNode.parentId with
      | none => simp
      | some p =>
        simp only [Option.bind_some, ih, Nat.add_comm 1 i, Nat.add_lt_add_iff_right]

/-- The check of a kit finds out whether the node is above the parent, however far. -/
theorem isAncestor_iff (s : LiveContent) (ancestor id : ContentId) :
    Edit.isAncestor s ancestor id = true ↔ s.view.Below ancestor id := by
  simp only [Edit.isAncestor, decide_eq_true_eq, List.mem_iff_getElem?, getElem?_pathUp]
  constructor
  · rintro ⟨steps, hsteps⟩
    split_ifs at hsteps
    exact ⟨steps, hsteps⟩
  · intro hbelow
    obtain ⟨steps, hlt, hsteps⟩ := hbelow.exists_lt_count
    exact ⟨steps, by rw [if_pos hlt, hsteps]⟩

theorem linkOf_place (s : LiveContent) (k : ContentKit) (type : ContentType) :
    (Edit.place s k type).1.view.linkOf =
      Function.update s.view.linkOf k.id (some k.parentId) := by
  funext x
  rw [linkOf, LiveContent.map_node?_place s (f := ContentNode.parentId) (fun _ _ ↦ rfl),
    Function.update_apply]
  rfl

theorem Grounded.set (h : s.view.Grounded) (k : ContentKit) : (Edit.set s k).1.view.Grounded := by
  refine ⟨h.linked.set k, fun {x parent} hx ↦ ?_⟩
  unfold Edit.set at hx ⊢
  cases hvet : Edit.vet s k with
  | error reason =>
    rw [hvet] at hx
    exact h.exists_steps hx
  | ok type =>
    rw [hvet] at hx
    simp only [linkOf_place] at hx ⊢
    have hnew : ∃ steps, StepsToTop (Function.update s.view.linkOf k.id (some k.parentId)) k.id
        steps := by
      cases hparent : k.parentId with
      | none => exact ⟨0, .top (Function.update_self _ _ _)⟩
      | some p =>
        obtain ⟨-, ⟨n, hn⟩, hcheck⟩ := (Edit.of_vet_eq_ok hvet).2.2 p hparent
        have hp : s.view.linkOf p = some n.parentId := congrArg (Option.map _) hn
        obtain ⟨steps, hsteps⟩ := h.exists_steps hp
        have hnot : ¬s.view.Below k.id p := by
          rw [← isAncestor_iff, hcheck]
          exact Bool.false_ne_true
        exact ⟨steps + 1, .under (Function.update_self _ _ _)
          (stepsToTop_update_of_not_below hsteps hnot)⟩
    by_cases heq : x = k.id
    · exact heq ▸ hnew
    · rw [Function.update_of_ne heq] at hx
      obtain ⟨steps, hsteps⟩ := h.exists_steps hx
      exact exists_stepsToTop_update hnew hsteps

theorem Grounded.removeSubtree (h : s.view.Grounded) (id : ContentId) :
    (Edit.removeSubtree s id).1.view.Grounded := by
  refine ⟨h.linked.removeSubtree id, fun {x parent} hx ↦ ?_⟩
  obtain ⟨hnot, hold⟩ := h.linked.linkOf_removeSubtree.mp hx
  obtain ⟨steps, hsteps⟩ := h.exists_steps hold
  clear hx hold
  refine ⟨steps, ?_⟩
  -- what stays has only what stays above it
  induction hsteps with
  | top htop => exact .top (h.linked.linkOf_removeSubtree.mpr ⟨hnot, htop⟩)
  | under hlink _ ih =>
    exact .under (h.linked.linkOf_removeSubtree.mpr ⟨hnot, hlink⟩)
      (ih fun hbelow ↦ hnot (hbelow.of_parent hlink))

/-- What is above each node depends on the parents that nodes name only. -/
theorem Grounded.of_linkOf_eq (h : s.view.Grounded) {t : LiveContent} (hlinked : t.view.Linked)
    (hlinks : t.view.linkOf = s.view.linkOf) : t.view.Grounded :=
  ⟨hlinked, fun hx ↦ by
    rw [hlinks] at hx ⊢
    exact h.exists_steps hx⟩

theorem Grounded.congr (h : s.view.Grounded) {t : LiveContent}
    (hnodes : t.view.nodes = s.view.nodes) (hroots : t.view.roots = s.view.roots) :
    t.view.Grounded := by
  refine h.of_linkOf_eq (h.linked.congr hnodes hroots) (funext fun id ↦ ?_)
  rw [linkOf, node?, hnodes]
  rfl

theorem linkOf_rebindNode (s : LiveContent) (type : ContentType) (id : ContentId) :
    (Retype.rebindNode s type id).1.view.linkOf = s.view.linkOf := by
  unfold Retype.rebindNode
  rw [LiveContent.node?_eq]
  cases hn : s.view.node? id with
  | none => rfl
  | some n =>
    funext x
    rw [linkOf, LiveContent.node?_setNode, Function.update_apply]
    split_ifs with heq
    · rw [linkOf, heq, hn]
      rfl
    · rfl

theorem grounded_of_no_nodes (hnodes : ∀ id, v.node? id = none) (hroots : ∀ id, id ∉ v.roots) :
    v.Grounded :=
  ⟨linked_of_no_nodes hnodes hroots, fun hx ↦ by simp [linkOf, hnodes] at hx⟩

theorem grounded_empty : empty.Grounded :=
  grounded_of_no_nodes (fun _ ↦ Std.ExtTreeMap.getElem?_empty) fun _ ↦
    Std.ExtTreeMap.not_mem_empty

/-- Every operation of a writer keeps every node below the top. -/
theorem grounded_invariant : EditInvariant fun s : LiveContent ↦ s.view.Grounded where
  set h k := h.set k
  removeSubtree h id := h.removeSubtree id
  clearTree _ := grounded_of_no_nodes (fun _ ↦ Std.ExtTreeMap.getElem?_empty)
    fun _ ↦ Std.ExtTreeMap.not_mem_empty
  removeType {s} h t := by
    have hremoved : (s.withoutNodesOf t).view.Grounded :=
      foldl_keeps (P := fun u : LiveContent ↦ u.view.Grounded) (fun _ id hu ↦ hu.removeSubtree id)
        _ h
    obtain ⟨hnodes, hroots, -, -⟩ := LiveContent.dropType_spec (s.withoutNodesOf t) t
    rw [LiveContent.removeType_fst]
    exact hremoved.congr hnodes hroots
  putType {s} h type := by
    obtain ⟨hnodes, hroots, -, -⟩ := LiveContent.putType_spec s type
    exact h.congr hnodes hroots
  rebindNodes h type except := by
    rw [Retype.rebindNodes_fst]
    exact foldl_keeps (P := fun u : LiveContent ↦ u.view.Grounded)
      (fun u id hu ↦ hu.of_linkOf_eq (hu.linked.rebindNode type id) (linkOf_rebindNode u type id))
      _ h

/-! ### Walks in a grounded tree -/

theorem exists_linkOf_of_stepsToTop (h : StepsToTop v.linkOf id steps) :
    ∃ parent, v.linkOf id = some parent := by
  cases h with
  | top h => exact ⟨none, h⟩
  | under h _ => exact ⟨some _, h⟩

/-- A walk to the top takes fewer steps than there are nodes: it meets a node for every step and one
more, and no node twice. -/
theorem steps_lt_size (h : StepsToTop v.linkOf id steps) : steps < v.nodes.size := by
  obtain ⟨top, htop, -⟩ := exists_climb_of_stepsToTop h
  have hmet : ∀ i ∈ List.range (steps + 1), ∃ c rest,
      v.climb i id = some c ∧ StepsToTop v.linkOf c rest ∧ i + rest = steps := by
    intro i hi
    rw [List.mem_range, Nat.lt_succ_iff] at hi
    rw [← Nat.add_sub_cancel' hi, climb_add] at htop
    obtain ⟨c, hc, -⟩ := Option.bind_eq_some_iff.mp htop
    obtain ⟨rest, hrest, hsum⟩ := stepsToTop_climb h hc
    exact ⟨c, rest, hc, hrest, hsum⟩
  let met : List ContentId := (List.range (steps + 1)).map fun i ↦ (v.climb i id).getD id
  have hnodup : met.Nodup := by
    refine List.nodup_range.map_on fun i hi j hj heq ↦ ?_
    obtain ⟨c, rest, hc, hrest, hsum⟩ := hmet i hi
    obtain ⟨d, other, hd, hother, hsum'⟩ := hmet j hj
    rw [hc, hd, Option.getD_some, Option.getD_some] at heq
    have := stepsToTop_unique hrest (heq ▸ hother)
    omega
  have hkeys : met ⊆ v.nodes.keys := by
    intro c hmem
    obtain ⟨i, hi, rfl⟩ := List.mem_map.mp hmem
    obtain ⟨c, rest, hc, hrest, -⟩ := hmet i hi
    obtain ⟨parent, hlink⟩ := exists_linkOf_of_stepsToTop hrest
    obtain ⟨n, hn⟩ := exists_node?_of_linkOf hlink
    rw [hc, Option.getD_some, Std.ExtTreeMap.mem_keys, Std.ExtTreeMap.mem_iff_isSome_getElem?]
    exact Option.isSome_of_eq_some hn
  have hle := (List.subperm_of_subset hnodup hkeys).length_le
  rwa [List.length_map, List.length_range, Std.ExtTreeMap.length_keys] at hle

/-- A walk to the top takes fewer steps than there are ids. -/
theorem steps_lt_count (h : StepsToTop v.linkOf id steps) : steps < ContentId.count := by
  obtain ⟨top, hclimb, htop⟩ := exists_climb_of_stepsToTop h
  obtain ⟨other, hlt, hother⟩ := Below.exists_lt_count ⟨steps, hclimb⟩
  obtain ⟨rest, hrest, hsum⟩ := stepsToTop_climb h hother
  have := stepsToTop_unique hrest (.top htop)
  omega

theorem climb_succ_of_linkOf_eq_none (hnone : v.linkOf id = none) (i : Nat) :
    v.climb (i + 1) id = none := by
  rw [Nat.add_comm, climb_add]
  have hfirst : v.climb 1 id = none := by
    simp only [climb, Option.bind_some]
    cases hn : v.node? id with
    | none => rfl
    | some n => simp [linkOf, hn] at hnone
  rw [hfirst, Option.bind_none]

/-- No walk takes as many steps as there are nodes, or as there are ids. -/
theorem Grounded.climb_succ_eq_none (h : v.Grounded) {i : Nat}
    (hle : v.nodes.size ≤ i + 1 ∨ ContentId.count ≤ i + 1) : v.climb (i + 1) id = none := by
  cases hlink : v.linkOf id with
  | none => exact climb_succ_of_linkOf_eq_none hlink i
  | some parent =>
    obtain ⟨steps, hsteps⟩ := h.exists_steps hlink
    have hsize := steps_lt_size hsteps
    have hcount := steps_lt_count hsteps
    exact climb_eq_none hsteps (by omega)

/-- A walk meets no id twice. -/
theorem Grounded.climb_injective (h : v.Grounded) {i j : Nat} (hi : v.climb i id = some c)
    (hj : v.climb j id = some c) : i = j := by
  cases hlink : v.linkOf id with
  | none =>
    cases i with
    | succ i => simp [climb_succ_of_linkOf_eq_none hlink] at hi
    | zero =>
      cases j with
      | succ j => simp [climb_succ_of_linkOf_eq_none hlink] at hj
      | zero => rfl
  | some parent =>
    obtain ⟨steps, hsteps⟩ := h.exists_steps hlink
    obtain ⟨rest, hrest, hsum⟩ := stepsToTop_climb hsteps hi
    obtain ⟨other, hother, hsum'⟩ := stepsToTop_climb hsteps hj
    have := stepsToTop_unique hrest hother
    omega

/-! ### Ancestors -/

theorem getElem?_lineage (v : ContentView) (bound : Nat) (id : ContentId) (i : Nat) :
    (v.lineage bound (v.node? id))[i]? =
      if i < bound then (v.climb i id).bind v.node? else none := by
  induction bound generalizing id i with
  | zero => simp [lineage]
  | succ bound ih =>
    cases hn : v.node? id with
    | none =>
      have hnone : v.linkOf id = none := by simp [linkOf, hn]
      cases i with
      | zero => simp [lineage, climb, hn]
      | succ i => simp [lineage, climb_succ_of_linkOf_eq_none hnone]
    | some n =>
      rw [lineage]
      cases i with
      | zero => simp [climb, hn]
      | succ i =>
        rw [List.getElem?_cons_succ, Nat.add_comm i 1, climb_add, climb, climb, Option.bind_some,
          hn, Option.bind_some]
        cases n.parentId with
        | none => cases bound <;> simp [lineage]
        | some p =>
          simp only [Option.bind_some, ih, Nat.add_comm 1 i, Nat.add_lt_add_iff_right]

theorem getElem?_lineage_parent? (v : ContentView) (bound : Nat) (id : ContentId) (i : Nat) :
    (v.lineage bound (v.parent? id))[i]? =
      if i < bound then (v.climb (i + 1) id).bind v.node? else none := by
  rw [parent?, Nat.add_comm i 1, climb_add, climb, climb, Option.bind_some]
  cases (v.node? id).bind ContentNode.parentId with
  | none => cases bound <;> simp [lineage]
  | some p => exact getElem?_lineage v bound p i

/-- The ancestors of a node are the nodes that the walk from it meets, nearest first, and all of
them. -/
theorem Grounded.getElem?_ancestors (h : v.Grounded) (id : ContentId) (i : Nat) :
    (v.ancestors id)[i]? = (v.climb (i + 1) id).bind v.node? := by
  rw [ancestors, getElem?_lineage_parent?]
  split_ifs with hlt
  · rfl
  · rw [h.climb_succ_eq_none (Or.inr (by omega)), Option.bind_none]

theorem Grounded.getElem?_map_id_ancestors (h : v.Grounded) (id : ContentId) (i : Nat) :
    ((v.ancestors id).map ContentNode.id)[i]? = v.climb (i + 1) id := by
  rw [List.getElem?_map, h.getElem?_ancestors]
  cases hc : v.climb (i + 1) id with
  | none => rfl
  | some c =>
    obtain ⟨p, -, hp⟩ := Option.bind_eq_some_iff.mp hc
    obtain ⟨n, hn⟩ := h.linked.parent_exists (parentId_eq_some_iff.mp hp)
    rw [Option.bind_some, hn, Option.map_some, h.linked.id_eq hn]

/-- Every walk along parents ends at the top, soon enough, and the ancestors of a node are what it
meets on the way. -/
structure WalksEnd (v : ContentView) : Prop where
  /-- Climbing from a node comes to one without a parent in fewer steps than there are nodes. -/
  reaches_top : ∀ id n, v.node? id = some n → ∃ steps < v.nodes.size, ∃ top m,
    v.climb steps id = some top ∧ v.node? top = some m ∧ m.parentId = none
  /-- The walk that lists the ancestors ends by itself: no larger bound leads it further. -/
  lineage_eq : ∀ id bound, v.nodes.size ≤ bound →
    v.lineage bound (v.parent? id) = v.ancestors id
  /-- Ancestor number `i` is the node `i + 1` steps above, and there is one for every such step. -/
  getElem?_ancestors : ∀ id (i : Nat),
    (v.ancestors id)[i]? = (v.climb (i + 1) id).bind v.node?
  nodup_ancestors : ∀ id, ((v.ancestors id).map ContentNode.id).Nodup
  not_mem_ancestors : ∀ id, id ∉ (v.ancestors id).map ContentNode.id
  last_mem_atRoot : ∀ id n, (v.ancestors id).getLast? = some n → n ∈ v.atRoot

theorem Grounded.last_mem_atRoot (h : v.Grounded) {n : ContentNode}
    (hlast : (v.ancestors id).getLast? = some n) : n ∈ v.atRoot := by
  rw [List.getLast?_eq_getElem?, h.getElem?_ancestors] at hlast
  obtain ⟨c, hc, hn⟩ := Option.bind_eq_some_iff.mp hlast
  obtain rfl := h.linked.id_eq hn
  refine (h.linked.mem_atRoot n).mpr ⟨hn, ?_⟩
  -- a parent of the last ancestor would be one more
  by_contra hparent
  obtain ⟨p, hp⟩ := Option.ne_none_iff_exists'.mp hparent
  have hlink : v.linkOf n.id = some (some p) := by rw [linkOf, hn, Option.map_some, hp]
  obtain ⟨m, hm⟩ := h.linked.parent_exists hlink
  have hnext : v.climb ((v.ancestors id).length - 1 + 1 + 1) id = some p := by
    rw [climb, hc, Option.bind_some]
    exact parentId_eq_some_iff.mpr hlink
  have hmore := h.getElem?_ancestors id ((v.ancestors id).length - 1 + 1)
  rw [hnext, Option.bind_some, hm, List.getElem?_eq_none (by omega)] at hmore
  contradiction

theorem walksEnd_of_grounded (h : v.Grounded) : v.WalksEnd where
  reaches_top id n hn := by
    have hlink : v.linkOf id = some n.parentId := by rw [linkOf, hn, Option.map_some]
    obtain ⟨steps, hsteps⟩ := h.exists_steps hlink
    obtain ⟨top, hclimb, htop⟩ := exists_climb_of_stepsToTop hsteps
    obtain ⟨m, hm, hparent⟩ := Option.map_eq_some_iff.mp htop
    exact ⟨steps, steps_lt_size hsteps, top, m, hclimb, hm, hparent⟩
  lineage_eq id bound hle := by
    refine List.ext_getElem? fun i ↦ ?_
    rw [getElem?_lineage_parent?, h.getElem?_ancestors]
    split_ifs with hlt
    · rfl
    · rw [h.climb_succ_eq_none (Or.inl (by omega)), Option.bind_none]
  getElem?_ancestors := h.getElem?_ancestors
  nodup_ancestors id := by
    refine List.nodup_iff_getElem?_ne_getElem?.mpr fun i j hlt hj heq ↦ ?_
    have hc := List.getElem?_eq_getElem hj
    rw [hc, h.getElem?_map_id_ancestors] at heq
    rw [h.getElem?_map_id_ancestors] at hc
    have := h.climb_injective heq hc
    omega
  not_mem_ancestors id hmem := by
    obtain ⟨i, hi⟩ := List.mem_iff_getElem?.mp hmem
    rw [h.getElem?_map_id_ancestors] at hi
    have := h.climb_injective hi (show v.climb 0 id = some id from rfl)
    omega
  last_mem_atRoot _ _ hlast := h.last_mem_atRoot hlast

end ContentView

/-! ### The check of a kit -/

/-- A kit that nothing but its place can keep from being applied: it has a payload and a defined
type, and the parent that it names exists. -/
structure Edit.FitsUnder (s : LiveContent) (k : ContentKit) (parent : ContentId) : Prop where
  payload : k.isEmpty = false
  typed : ∃ type, s.view.type? k.contentTypeId = some type
  named : k.parentId = some parent
  parent_exists : ∃ n, s.view.node? parent = some n

namespace LiveContent

variable {s : LiveContent}

/-- The check of a kit ends, and refuses exactly to put a node under itself or below itself. -/
structure ChecksCycles (s : LiveContent) : Prop where
  /-- The walk from a parent ends by itself: no larger bound leads it further. -/
  pathUp_eq : ∀ id n bound, s.view.node? id = some n → s.view.nodes.size ≤ bound →
    Edit.pathUp s bound id = Edit.pathUp s ContentId.count id
  isApplied_iff : ∀ k p, Edit.FitsUnder s k p →
    ((Edit.set s k).2.isApplied = true ↔ ¬s.view.Below k.id p)
  selfParent_iff : ∀ k p, Edit.FitsUnder s k p →
    ((Edit.set s k).2 = .skipped .selfParent ↔ p = k.id)
  cycle_iff : ∀ k p, Edit.FitsUnder s k p →
    ((Edit.set s k).2 = .skipped .cycle ↔ p ≠ k.id ∧ s.view.Below k.id p)

/-- The check of a kit that fits under its parent looks at where the parent is. -/
theorem vet_of_fitsUnder {k : ContentKit} {p : ContentId} (h : Edit.FitsUnder s k p) :
    ∃ type, Edit.vet s k =
      if p = k.id then .error .selfParent
      else if Edit.isAncestor s k.id p then .error .cycle else .ok type := by
  obtain ⟨hpayload, ⟨type, htype⟩, hnamed, ⟨n, hn⟩⟩ := h
  refine ⟨type, ?_⟩
  simp only [Edit.vet, hpayload, Bool.false_eq_true, if_false, type?_eq, htype, hnamed, node?_eq,
    hn, Option.isNone_some]

/-- What becomes of a kit that fits under its parent. -/
theorem set_of_fitsUnder {k : ContentKit} {p : ContentId} (h : Edit.FitsUnder s k p) :
    p = k.id ∧ (Edit.set s k).2 = .skipped .selfParent ∨
      p ≠ k.id ∧ s.view.Below k.id p ∧ (Edit.set s k).2 = .skipped .cycle ∨
      ¬s.view.Below k.id p ∧ (Edit.set s k).2.isApplied = true := by
  obtain ⟨type, hvet⟩ := vet_of_fitsUnder h
  unfold Edit.set
  rw [hvet]
  split_ifs with hself hcheck
  · exact Or.inl ⟨hself, rfl⟩
  · exact Or.inr (Or.inl ⟨hself, (ContentView.isAncestor_iff s k.id p).mp hcheck, rfl⟩)
  · refine Or.inr (Or.inr ⟨?_, Edit.isApplied_place s k type⟩)
    rwa [← ContentView.isAncestor_iff]

theorem checksCycles_of_grounded (h : s.view.Grounded) : s.ChecksCycles where
  pathUp_eq id n bound hn hle := by
    refine List.ext_getElem? fun i ↦ ?_
    have hpos : 0 < s.view.nodes.size := by
      obtain ⟨steps, hlt, -⟩ := (ContentView.walksEnd_of_grounded h).reaches_top id n hn
      exact Nat.zero_lt_of_lt hlt
    rw [ContentView.getElem?_pathUp, ContentView.getElem?_pathUp]
    cases i with
    | zero => rw [if_pos (by omega), if_pos (by decide)]
    | succ i =>
      split_ifs with hbound hcount hcount
      · rfl
      · exact h.climb_succ_eq_none (Or.inr (by omega))
      · exact (h.climb_succ_eq_none (Or.inl (by omega))).symm
      · rfl
  isApplied_iff k p hfits := by
    rcases set_of_fitsUnder hfits with ⟨rfl, hskip⟩ | ⟨-, hbelow, hskip⟩ | ⟨hnot, happlied⟩
    · simp [hskip, KitOutcome.isApplied, ContentView.below_self]
    · simp [hskip, KitOutcome.isApplied, hbelow]
    · exact iff_of_true happlied hnot
  selfParent_iff k p hfits := by
    rcases set_of_fitsUnder hfits with ⟨hself, hskip⟩ | ⟨hself, -, hskip⟩ | ⟨hnot, happlied⟩
    · exact iff_of_true hskip hself
    · simp [hskip, hself]
    · refine iff_of_false (fun hskip ↦ ?_) fun hself ↦ hnot (hself ▸ ContentView.below_self)
      simp [hskip, KitOutcome.isApplied] at happlied
  cycle_iff k p hfits := by
    rcases set_of_fitsUnder hfits with ⟨hself, hskip⟩ | ⟨hself, hbelow, hskip⟩ | ⟨hnot, happlied⟩
    · simp [hskip, hself]
    · exact iff_of_true hskip ⟨hself, hbelow⟩
    · refine iff_of_false (fun hskip ↦ ?_) fun hcycle ↦ hnot hcycle.2
      simp [hskip, KitOutcome.isApplied] at happlied

end LiveContent

namespace RecordedStore

/-- In every state of a run, and in every state that an operation passes through there, walks along
parents end and the check of a kit refuses exactly the moves of a node under itself or below itself;
the store gives the answer of that check. Walks end in all that a held pin shows, too. -/
theorem Reachable.walksEnd {kind : ItemKind} {options : StoreOptions} {r : RecordedStore}
    (hr : Reachable kind options r) :
    (∀ l, Edits r.store.live l → l.view.WalksEnd ∧ l.ChecksCycles) ∧
      (∀ k, (r.store.set k).2 = (Edit.set r.store.live k).2) ∧
      ∀ pin ∈ r.clock.held, (r.store.viewAt pin.generation).WalksEnd := by
  have hempty : LiveContent.empty.view.Grounded := ContentView.grounded_empty
  have hlive := (hr.keeps ContentView.grounded_invariant hempty).1
  refine ⟨fun l hedits ↦ ?_, fun k ↦ ?_, fun pin hpin ↦ ?_⟩
  · have hgrounded := ContentView.grounded_invariant.edits hlive hedits
    exact ⟨ContentView.walksEnd_of_grounded hgrounded,
      LiveContent.checksCycles_of_grounded hgrounded⟩
  · have hanswer := (ContentStore.perform_follows hr.faithful.headsLE (.set k)).2.2.1
    exact WriterAnswer.outcome.inj hanswer
  · obtain ⟨l, hgrounded, hview⟩ := hr.keeps_of_mem_held ContentView.grounded_invariant hempty hpin
    rw [← hview]
    exact ContentView.walksEnd_of_grounded hgrounded

/-- The pinned page moved under the page below it. -/
def pageCircled : ContentKit := { page with parentId := some ⟨2⟩, level := 3 }

/-- The page below the pinned one has it as its only ancestor; the pinned page cannot be moved under
the one below it. -/
theorem Reachable.walksEnd_pageCircled :
    (pageExtended.store.live.view.ancestors ⟨2⟩)[0]? = some (.ofKit page pageType [⟨2⟩]) ∧
      (pageExtended.store.live.view.ancestors ⟨2⟩)[1]? = none ∧
      (pageExtended.store.set pageCircled).2 = .skipped .cycle ∧
      (pageExtended.store.viewAt 1).WalksEnd := by
  have hpin : (⟨1, 0⟩ : Pin) ∈ pageExtended.clock.held := by decide +kernel
  obtain ⟨hlive, hset, hpins⟩ := reachable_pageExtended.walksEnd
  obtain ⟨hwalks, hchecks⟩ := hlive _ .refl
  have hfits : Edit.FitsUnder pageExtended.store.live pageCircled ⟨2⟩ :=
    ⟨by decide +kernel, ⟨pageType, by decide +kernel⟩, rfl,
      Option.isSome_iff_exists.mp (by decide +kernel)⟩
  refine ⟨?_, ?_, ?_, hpins _ hpin⟩
  · rw [hwalks.getElem?_ancestors]
    decide +kernel
  · rw [hwalks.getElem?_ancestors]
    decide +kernel
  · rw [hset, hchecks.cycle_iff _ _ hfits]
    exact ⟨by decide, 1, by decide +kernel⟩

end RecordedStore

end VersionedContent
