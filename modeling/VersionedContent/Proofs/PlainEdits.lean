import Mathlib.Logic.Function.Basic
import VersionedContent.Proofs.TableSimulation

/-!
# Edits of plain tables

What the writes of single entries do to the look-ups of plain tables, and how an invariant of the
tables carries over from the edits of one node or one type to every operation of a writer
(`EditInvariant.run`).
-/

set_option autoImplicit false

namespace VersionedContent

/-! ### Batches as folds over states -/

section Batches

variable {σ : Type} [LiveTables σ]

theorem Edit.setEach_fst (s : σ) (ks : List ContentKit) :
    (Edit.setEach s ks).1 = ks.foldl (fun s k ↦ (Edit.set s k).1) s :=
  (List.foldl_hom Prod.fst fun _ _ ↦ rfl).symm

theorem Retype.removeEach_fst (s : σ) (ids : List ContentId) :
    (Retype.removeEach s ids).1 = ids.foldl (fun s id ↦ (Edit.removeSubtree s id).1) s :=
  (List.foldl_hom Prod.fst fun _ _ ↦ rfl).symm

theorem Retype.removeTypes_fst (s : σ) (ids : List ContentTypeId) :
    (Retype.removeTypes s ids).1 = ids.foldl (fun s id ↦ (Retype.removeType s id).1) s :=
  (List.foldl_hom Prod.fst fun _ _ ↦ rfl).symm

theorem Retype.rebindNodes_fst (s : σ) (type : ContentType) (except : List ContentId) :
    (Retype.rebindNodes s type except).1 =
      (((LiveTables.index s).nodesOf type.id).filter (· ∉ except)).foldl
        (fun s id ↦ (Retype.rebindNode s type id).1) s :=
  (List.foldl_hom Prod.fst fun _ _ ↦ rfl).symm

theorem Retype.rebindAll_fst (s : σ) (types : List ContentType) (except : List ContentId) :
    (Retype.rebindAll s types except).1 =
      types.foldl (fun s type ↦ (Retype.rebindNodes s type except).1) s :=
  (List.foldl_hom Prod.fst fun _ _ ↦ rfl).symm

omit [LiveTables σ] in
/-- What holds of a state and is kept by every step of a fold holds at its end. -/
theorem foldl_keeps {α : Type} {P : σ → Prop} {f : σ → α → σ} (hstep : ∀ s a, P s → P (f s a))
    (xs : List α) {s : σ} (h : P s) : P (xs.foldl f s) := by
  induction xs generalizing s with
  | nil => exact h
  | cons a xs ih => exact ih (hstep s a h)

omit [LiveTables σ] in
/-- What every step of a fold leaves alone is the same at its end. -/
theorem foldl_unchanged {α β : Type} {f : σ → α → σ} (g : σ → β)
    (hstep : ∀ s a, g (f s a) = g s) (xs : List α) (s : σ) : g (xs.foldl f s) = g s :=
  foldl_keeps (P := fun u ↦ g u = g s) (fun u a hu ↦ (hstep u a).trans hu) xs rfl

end Batches

/-! ### Invariants -/

/-- A property of states that every edit of one node or one type keeps. -/
structure EditInvariant {σ : Type} [LiveTables σ] (P : σ → Prop) : Prop where
  set : ∀ {s}, P s → ∀ k, P (Edit.set s k).1
  removeSubtree : ∀ {s}, P s → ∀ id, P (Edit.removeSubtree s id).1
  clearTree : ∀ {s : σ}, P s → P (LiveTables.setIndex (LiveTables.clearTree s) TypeIndex.empty)
  removeType : ∀ {s}, P s → ∀ id, P (Retype.removeType s id).1
  putType : ∀ {s}, P s → ∀ type, P (Retype.putType s type)
  rebindNodes : ∀ {s}, P s → ∀ type except, P (Retype.rebindNodes s type except).1

namespace EditInvariant

variable {σ : Type} [LiveTables σ] {P : σ → Prop} {s : σ}

theorem setOrdered (inv : EditInvariant P) (h : P s) (ks : List ContentKit) :
    P (Edit.setOrdered s ks).1 := by
  rw [Edit.setOrdered, Edit.setEach_fst]
  exact foldl_keeps (P := P) (fun _ k hs ↦ inv.set hs k) _ h

theorem removeTypes (inv : EditInvariant P) (h : P s) (ids : List ContentTypeId) :
    P (Retype.removeTypes s ids).1 := by
  rw [Retype.removeTypes_fst]
  exact foldl_keeps (P := P) (fun _ id hs ↦ inv.removeType hs id) ids h

theorem putTypes (inv : EditInvariant P) (h : P s) (types : List ContentType) :
    P (types.foldl Retype.putType s) :=
  foldl_keeps (P := P) (fun _ type hs ↦ inv.putType hs type) types h

theorem rebindAll (inv : EditInvariant P) (h : P s) (types : List ContentType)
    (except : List ContentId) : P (Retype.rebindAll s types except).1 := by
  rw [Retype.rebindAll_fst]
  exact foldl_keeps (P := P) (fun _ type hs ↦ inv.rebindNodes hs type except) types h

theorem updateTypes (inv : EditInvariant P) (h : P s) (removed : List ContentTypeId)
    (refreshed : List ContentType) (ks : List ContentKit) :
    P (Retype.updateTypes s removed refreshed ks).1 :=
  inv.rebindAll (inv.setOrdered (inv.putTypes (inv.removeTypes h removed) refreshed) _)
    refreshed _

/-- What every edit of one node or one type keeps, every operation of a writer keeps. -/
theorem run (inv : EditInvariant P) (h : P s) (call : WriterCall) : P (call.run s).1 := by
  cases call with
  | set k => exact inv.set h k
  | clear id => exact inv.removeSubtree h id
  | setAll ks => exact inv.setOrdered (inv.clearTree h) ks
  | setBranch root ks => exact inv.setOrdered (inv.removeSubtree h root) ks
  | setAllTypes types => exact inv.updateTypes h _ types []
  | updateTypes removed refreshed ks => exact inv.updateTypes h removed refreshed ks
  | updateDataTypes ids resolve r => exact inv.updateTypes h [] _ []

end EditInvariant

/-! ### What lets a kit pass -/

/-- A kit that is not skipped has a payload, a defined type, and a parent that exists and is neither
the node itself nor below it. -/
theorem Edit.of_vet_eq_ok {σ : Type} [LiveTables σ] {s : σ} {k : ContentKit} {type : ContentType}
    (h : vet s k = .ok type) :
    k.isEmpty = false ∧ LiveTables.type? s k.contentTypeId = some type ∧
      ∀ p, k.parentId = some p →
        p ≠ k.id ∧ (∃ n, LiveTables.node? s p = some n) ∧ isAncestor s k.id p = false := by
  unfold vet at h
  split at h
  · contradiction
  · next hempty =>
    split at h
    · contradiction
    · next found htype =>
      split at h
      · next hparent =>
        obtain rfl := Except.ok.inj h
        exact ⟨by simpa using hempty, htype, by simp [hparent]⟩
      · next p hparent =>
        split_ifs at h with hself hmissing hcycle
        obtain rfl := Except.ok.inj h
        refine ⟨by simpa using hempty, htype, fun q hq ↦ ?_⟩
        obtain rfl := Option.some.inj (hparent.symm.trans hq)
        exact ⟨hself, Option.ne_none_iff_exists'.mp (by simpa using hmissing),
          by simpa using hcycle⟩

/-! ### Look-ups after a write of one entry -/

namespace LiveContent

open LiveTables

variable (s : LiveContent)

@[simp] theorem node?_eq : LiveTables.node? s = s.view.node? := rfl

@[simp] theorem type?_eq : LiveTables.type? s = s.view.type? := rfl

theorem type?_empty (id : ContentTypeId) : LiveContent.empty.view.type? id = none :=
  Std.ExtTreeMap.getElem?_empty

theorem node?_setNode (id : ContentId) (n : ContentNode) :
    (setNode s id n).view.node? = Function.update s.view.node? id (some n) := by
  funext x
  simp only [setNode, modify, ContentView.node?, Std.ExtTreeMap.getElem?_insert,
    Function.update_apply, Std.LawfulEqOrd.compare_eq_iff_eq, eq_comm (a := x)]

theorem node?_setNode_cases {s : LiveContent} {id x : ContentId} {n m : ContentNode}
    (h : (setNode s id n).view.node? x = some m) :
    x = id ∧ m = n ∨ x ≠ id ∧ s.view.node? x = some m := by
  rw [node?_setNode, Function.update_apply] at h
  split_ifs at h with heq
  · exact Or.inl ⟨heq, (Option.some.inj h).symm⟩
  · exact Or.inr ⟨heq, h⟩

theorem node?_clearNode (id : ContentId) :
    (clearNode s id).view.node? = Function.update s.view.node? id none := by
  funext x
  simp only [clearNode, modify, ContentView.node?, Std.ExtTreeMap.getElem?_erase,
    Function.update_apply, Std.LawfulEqOrd.compare_eq_iff_eq, eq_comm (a := x)]

theorem type?_setType (id : ContentTypeId) (type : ContentType) :
    (setType s id type).view.type? = Function.update s.view.type? id (some type) := by
  funext x
  simp only [setType, modify, ContentView.type?, Std.ExtTreeMap.getElem?_insert,
    Function.update_apply, Std.LawfulEqOrd.compare_eq_iff_eq, eq_comm (a := x)]

theorem type?_clearType (id : ContentTypeId) :
    (clearType s id).view.type? = Function.update s.view.type? id none := by
  funext x
  simp only [clearType, modify, ContentView.type?, Std.ExtTreeMap.getElem?_erase,
    Function.update_apply, Std.LawfulEqOrd.compare_eq_iff_eq, eq_comm (a := x)]

theorem mem_roots_setRoot {id x : ContentId} :
    x ∈ (setRoot s id).view.roots ↔ x = id ∨ x ∈ s.view.roots := by
  simp only [setRoot, modify, Std.ExtTreeMap.mem_insert, Std.LawfulEqOrd.compare_eq_iff_eq,
    eq_comm (a := x)]

theorem mem_roots_clearRoot {id x : ContentId} :
    x ∈ (clearRoot s id).view.roots ↔ x ≠ id ∧ x ∈ s.view.roots := by
  simp only [clearRoot, modify, Std.ExtTreeMap.mem_erase, Std.LawfulEqOrd.compare_eq_iff_eq,
    ne_eq, eq_comm (a := x)]

/-- Nodes that are forgotten are gone, and nothing else is. -/
theorem node?_foldl_forget (gone : List ContentNode) (x : ContentId) :
    (gone.foldl Edit.forget s).view.node? x =
      if x ∈ gone.map ContentNode.id then none else s.view.node? x := by
  induction gone generalizing s with
  | nil => simp
  | cons n gone ih =>
    rw [List.foldl_cons, ih, Edit.forget, node?_clearNode, Function.update_apply]
    by_cases heq : x = n.id
    · simp [heq]
    · rw [if_neg heq, List.map_cons]
      simp only [List.mem_cons, heq, false_or]
      rfl

theorem roots_foldl_forget (gone : List ContentNode) :
    (gone.foldl Edit.forget s).view.roots = s.view.roots :=
  foldl_unchanged (f := Edit.forget) (fun u : LiveContent ↦ u.view.roots) (fun _ _ ↦ rfl) gone s

/-! ### What edits of nodes do to the tables of types -/

/-- The two tables of content types. -/
def typeTables (s : LiveContent) :
    Std.ExtTreeMap ContentTypeId ContentType × Std.ExtTreeMap String ContentType :=
  (s.view.types, s.view.typesByHandle)

theorem type?_of_typeTables {s t : LiveContent} (h : t.typeTables = s.typeTables) :
    t.view.type? = s.view.type? := by
  funext id
  simp only [ContentView.type?, show t.view.types = s.view.types from congrArg Prod.fst h]

@[simp] theorem typeTables_attach (id : ContentId) (parent : Option ContentId) :
    (Edit.attach s id parent).typeTables = s.typeTables := by
  unfold Edit.attach
  split
  · rfl
  · split <;> rfl

@[simp] theorem typeTables_detach (id : ContentId) (parent : Option ContentId) :
    (Edit.detach s id parent).typeTables = s.typeTables := by
  unfold Edit.detach
  split
  · rfl
  · split <;> rfl

@[simp] theorem typeTables_store (previous : Option ContentNode) (n : ContentNode) :
    (Edit.store s previous n).typeTables = s.typeTables := rfl

@[simp] theorem typeTables_set (k : ContentKit) :
    (Edit.set s k).1.typeTables = s.typeTables := by
  unfold Edit.set Edit.place
  split
  · rfl
  · split
    · simp
    · dsimp only
      split_ifs <;> simp

@[simp] theorem typeTables_foldl_forget (gone : List ContentNode) :
    (gone.foldl Edit.forget s).typeTables = s.typeTables :=
  foldl_unchanged (f := Edit.forget) typeTables (fun _ _ ↦ rfl) gone s

@[simp] theorem typeTables_removeSubtree (id : ContentId) :
    (Edit.removeSubtree s id).1.typeTables = s.typeTables := by
  unfold Edit.removeSubtree
  split
  · rfl
  · simp

@[simp] theorem typeTables_rebindNode (type : ContentType) (id : ContentId) :
    (Retype.rebindNode s type id).1.typeTables = s.typeTables := by
  unfold Retype.rebindNode
  split <;> rfl

/-! ### What edits of one node do to other data than child lists -/

variable {β : Type} {f : ContentNode → β}

theorem map_node?_store (previous : Option ContentNode) (n : ContentNode) (x : ContentId) :
    ((Edit.store s previous n).view.node? x).map f =
      if x = n.id then some (f n) else (s.view.node? x).map f := by
  rw [Edit.store, node?_setNode, Function.update_apply]
  split_ifs <;> rfl

variable (hf : ∀ n children, f { n with childIds := children } = f n)

include hf

theorem map_node?_setChildren {p : ContentId} {n : ContentNode} (hn : s.view.node? p = some n)
    (children : List ContentId) (x : ContentId) :
    ((setNode s p { n with childIds := children }).view.node? x).map f =
      (s.view.node? x).map f := by
  rw [node?_setNode, Function.update_apply]
  split_ifs with heq
  · rw [heq, hn, Option.map_some, Option.map_some, hf]
  · rfl

theorem map_node?_attach (id : ContentId) (parent : Option ContentId) (x : ContentId) :
    ((Edit.attach s id parent).view.node? x).map f = (s.view.node? x).map f := by
  cases parent with
  | none => rfl
  | some p =>
    simp only [Edit.attach, node?_eq, ContentNode.withChild]
    cases hn : s.view.node? p with
    | none => rfl
    | some n =>
      dsimp only
      split_ifs
      · exact map_node?_setChildren s hf hn n.childIds x
      · exact map_node?_setChildren s hf hn _ x

theorem map_node?_detach (id : ContentId) (parent : Option ContentId) (x : ContentId) :
    ((Edit.detach s id parent).view.node? x).map f = (s.view.node? x).map f := by
  cases parent with
  | none => rfl
  | some p =>
    simp only [Edit.detach, node?_eq, ContentNode.withoutChild]
    cases hn : s.view.node? p with
    | none => rfl
    | some n => exact map_node?_setChildren s hf hn _ x

/-- Applying a kit puts the data of the kit in place of those of its node. -/
theorem map_node?_place (k : ContentKit) (type : ContentType) (x : ContentId) :
    ((Edit.place s k type).1.view.node? x).map f =
      if x = k.id then some (f (.ofKit k type [])) else (s.view.node? x).map f := by
  have hstore : ∀ previous children,
      ((Edit.store s previous (.ofKit k type children)).view.node? x).map f =
        if x = k.id then some (f (.ofKit k type [])) else (s.view.node? x).map f := by
    intro previous children
    have hdata : f (.ofKit k type children) = f (.ofKit k type []) := hf (.ofKit k type []) children
    rw [map_node?_store, hdata]
    rfl
  unfold Edit.place
  cases LiveTables.node? s k.id with
  | none => exact (map_node?_attach _ hf _ _ x).trans (hstore _ _)
  | some previous =>
    dsimp only
    by_cases hparent : previous.parentId = k.parentId
    · rw [if_pos hparent]
      exact hstore _ _
    · rw [if_neg hparent]
      exact (map_node?_attach _ hf _ _ x).trans
        ((map_node?_detach _ hf _ _ x).trans (hstore _ _))

end LiveContent

end VersionedContent
