import Mathlib.Tactic.SplitIfs
import VersionedContent.Retype

/-!
# Edits on related tables

The edits of a content tree are written once for every state that has the tables. Let a relation
between two kinds of state be such that related states answer every read of a table alike and stay
related under every write of one (`TableSimulation`). Then every edit gives the same answer in both
and leaves related states behind (`TableSimulation.run`).

No edit looks into a draft. It is enough that related states answer alike up to a change of the
drafts in nodes (`DraftSimulation`): an operation gives the same answer when the drafts of its kits
are changed in the same way (`DraftSimulation.run`).
-/

set_option autoImplicit false

namespace VersionedContent

open LiveTables

/-! ### The operations of a writer -/

/-- One operation of a writer, with its arguments. -/
inductive WriterCall : Type 1
  | set (k : ContentKit)
  | clear (id : ContentId)
  | setAll (ks : List ContentKit)
  | setBranch (root : ContentId) (ks : List ContentKit)
  | setAllTypes (types : List ContentType)
  | updateTypes (removed : List ContentTypeId) (refreshed : List ContentType)
      (ks : List ContentKit)
  | updateDataTypes {ρ : Type} (ids : List DataTypeId)
      (resolve : ρ → ContentType → ρ × Option ContentType) (r : ρ)

/-- What an operation of a writer tells its caller. -/
inductive WriterAnswer
  | outcome (outcome : KitOutcome)
  | found (found : Bool)
  | loaded (report : LoadReport)
  | rebuilt (rebuild : TypeRebuild)
deriving DecidableEq

/-- A result under the answer it gives. -/
def WriterAnswer.of {σ α : Type} (wrap : α → WriterAnswer) (result : σ × α) : σ × WriterAnswer :=
  (result.1, wrap result.2)

/-- Carries out an operation on any state with tables. -/
def WriterCall.run {σ : Type} [LiveTables σ] (s : σ) : WriterCall → σ × WriterAnswer
  | .set k => WriterAnswer.of .outcome (Edit.set s k)
  | .clear id => WriterAnswer.of .found (Edit.clear s id)
  | .setAll ks => WriterAnswer.of .loaded (Edit.setAll s ks)
  | .setBranch root ks => WriterAnswer.of .loaded (Edit.setBranch s root ks)
  | .setAllTypes types => WriterAnswer.of .rebuilt (Retype.setAllTypes s types)
  | .updateTypes removed refreshed ks =>
    WriterAnswer.of .rebuilt (Retype.updateTypes s removed refreshed ks)
  | .updateDataTypes ids resolve r =>
    WriterAnswer.of (fun answer ↦ .rebuilt answer.2) (Retype.updateDataTypes s ids resolve r)

/-! ### Changes of drafts -/

/-- A change of drafts, which may depend on the published payload beside them. What has no payload
at all stays so, and nothing else becomes so. -/
structure DraftChange where
  draft : (draft published : Option ContentData) → Option ContentData
  isNone_draft : ∀ d, (draft d none).isNone = d.isNone

namespace DraftChange

/-- The change that leaves every draft as it is. -/
def unchanged : DraftChange := ⟨fun d _ ↦ d, fun _ ↦ rfl⟩

variable (c : DraftChange)

/-- The node with its draft changed. -/
def node (n : ContentNode) : ContentNode := { n with draft := c.draft n.draft n.published }

/-- The kit with its draft changed. -/
def kit (k : ContentKit) : ContentKit := { k with draft := c.draft k.draft k.published }

/-- The operation with the drafts of its kits changed. -/
def call : WriterCall → WriterCall
  | .set k => .set (c.kit k)
  | .clear id => .clear id
  | .setAll ks => .setAll (ks.map c.kit)
  | .setBranch root ks => .setBranch root (ks.map c.kit)
  | .setAllTypes types => .setAllTypes types
  | .updateTypes removed refreshed ks => .updateTypes removed refreshed (ks.map c.kit)
  | .updateDataTypes ids resolve r => .updateDataTypes ids resolve r

theorem kit_unchanged : unchanged.kit = id := rfl

theorem call_unchanged (call : WriterCall) : unchanged.call call = call := by
  cases call <;> simp only [DraftChange.call, kit_unchanged, List.map_id, id_eq]

theorem isEmpty_kit (k : ContentKit) : (c.kit k).isEmpty = k.isEmpty := by
  unfold ContentKit.isEmpty kit
  cases k.published with
  | none => simp only [c.isNone_draft]
  | some d => simp

theorem withChild_node (n : ContentNode) (child : ContentId) :
    (c.node n).withChild child = c.node (n.withChild child) := by
  unfold ContentNode.withChild node
  dsimp only
  split_ifs <;> rfl

theorem mergeSort_map_kit (ks : List ContentKit) :
    (ks.map c.kit).mergeSort Edit.levelLE = (ks.mergeSort Edit.levelLE).map c.kit :=
  (List.map_mergeSort (f := c.kit) fun _ _ _ _ ↦ rfl).symm

theorem reindex_node (i : TypeIndex) (previous : Option ContentNode) (n : ContentNode) :
    Edit.reindex i (previous.map c.node) (c.node n) = Edit.reindex i previous n := by
  cases previous <;> rfl

end DraftChange

/-! ### Relations that reads respect and writes keep -/

/-- Related states answer every read of a table alike, and every write of one keeps them related. -/
structure TableSimulation {σ τ : Type} [LiveTables σ] [LiveTables τ] (R : σ → τ → Prop) :
    Prop where
  node? : ∀ {s t}, R s t → ∀ id, node? s id = node? t id
  setNode : ∀ {s t}, R s t → ∀ id n, R (setNode s id n) (setNode t id n)
  clearNode : ∀ {s t}, R s t → ∀ id, R (clearNode s id) (clearNode t id)
  setRoot : ∀ {s t}, R s t → ∀ id, R (setRoot s id) (setRoot t id)
  clearRoot : ∀ {s t}, R s t → ∀ id, R (clearRoot s id) (clearRoot t id)
  clearTree : ∀ {s t}, R s t → R (clearTree s) (clearTree t)
  type? : ∀ {s t}, R s t → ∀ id, type? s id = type? t id
  setType : ∀ {s t}, R s t → ∀ id type, R (setType s id type) (setType t id type)
  clearType : ∀ {s t}, R s t → ∀ id, R (clearType s id) (clearType t id)
  types : ∀ {s t}, R s t → types s = types t
  typeNamed? : ∀ {s t}, R s t → ∀ handle, typeNamed? s handle = typeNamed? t handle
  setHandle : ∀ {s t}, R s t → ∀ handle type, R (setHandle s handle type) (setHandle t handle type)
  clearHandle : ∀ {s t}, R s t → ∀ handle, R (clearHandle s handle) (clearHandle t handle)
  index : ∀ {s t}, R s t → index s = index t
  setIndex : ∀ {s t}, R s t → ∀ i, R (setIndex s i) (setIndex t i)

/-- Related states answer every read of a table alike, and every write of one keeps them related,
but for a change of the drafts in nodes. -/
structure DraftSimulation {σ τ : Type} [LiveTables σ] [LiveTables τ] (c : DraftChange)
    (R : σ → τ → Prop) : Prop where
  node? : ∀ {s t}, R s t → ∀ id, node? t id = (node? s id).map c.node
  setNode : ∀ {s t}, R s t → ∀ id n, R (setNode s id n) (setNode t id (c.node n))
  clearNode : ∀ {s t}, R s t → ∀ id, R (clearNode s id) (clearNode t id)
  setRoot : ∀ {s t}, R s t → ∀ id, R (setRoot s id) (setRoot t id)
  clearRoot : ∀ {s t}, R s t → ∀ id, R (clearRoot s id) (clearRoot t id)
  clearTree : ∀ {s t}, R s t → R (clearTree s) (clearTree t)
  type? : ∀ {s t}, R s t → ∀ id, type? s id = type? t id
  setType : ∀ {s t}, R s t → ∀ id type, R (setType s id type) (setType t id type)
  clearType : ∀ {s t}, R s t → ∀ id, R (clearType s id) (clearType t id)
  types : ∀ {s t}, R s t → types s = types t
  setHandle : ∀ {s t}, R s t → ∀ handle type, R (setHandle s handle type) (setHandle t handle type)
  clearHandle : ∀ {s t}, R s t → ∀ handle, R (clearHandle s handle) (clearHandle t handle)
  index : ∀ {s t}, R s t → index s = index t
  setIndex : ∀ {s t}, R s t → ∀ i, R (setIndex s i) (setIndex t i)

/-- Two results agree: the states are related and the answers equal. -/
def Agree {σ τ α : Type} (R : σ → τ → Prop) (x : σ × α) (y : τ × α) : Prop :=
  R x.1 y.1 ∧ x.2 = y.2

/-- Folds over one list agree when their steps do. -/
theorem Agree.foldl {σ τ α β : Type} {R : σ → τ → Prop} {f : σ × β → α → σ × β}
    {g : τ × β → α → τ × β} (hstep : ∀ a x y, Agree R x y → Agree R (f x a) (g y a))
    (xs : List α) {x : σ × β} {y : τ × β} (h : Agree R x y) :
    Agree R (xs.foldl f x) (xs.foldl g y) :=
  List.foldl_rel h fun a _ x y hxy ↦ hstep a x y hxy

theorem Agree.answer {σ τ α : Type} {R : σ → τ → Prop} {x : σ × α} {y : τ × α}
    (h : Agree R x y) (wrap : α → WriterAnswer) :
    Agree R (WriterAnswer.of wrap x) (WriterAnswer.of wrap y) :=
  ⟨h.1, congrArg wrap h.2⟩

namespace DraftSimulation

variable {σ τ : Type} [LiveTables σ] [LiveTables τ] {c : DraftChange} {R : σ → τ → Prop}
variable {s : σ} {t : τ}

/-! ### Edits of the tree -/

theorem parentId (sim : DraftSimulation c R) (h : R s t) (id : ContentId) :
    (LiveTables.node? t id).bind ContentNode.parentId =
      (LiveTables.node? s id).bind ContentNode.parentId := by
  rw [sim.node? h, Option.bind_map]
  rfl

theorem pathUp (sim : DraftSimulation c R) (h : R s t) (bound : Nat) (id : ContentId) :
    Edit.pathUp s bound id = Edit.pathUp t bound id := by
  induction bound generalizing id with
  | zero => rfl
  | succ bound ih =>
    rw [Edit.pathUp, Edit.pathUp, sim.parentId h]
    cases (LiveTables.node? s id).bind ContentNode.parentId with
    | none => rfl
    | some parent => simp only [ih]

theorem isAncestor (sim : DraftSimulation c R) (h : R s t) (ancestor id : ContentId) :
    Edit.isAncestor s ancestor id = Edit.isAncestor t ancestor id := by
  rw [Edit.isAncestor, Edit.isAncestor, sim.pathUp h]

theorem vet (sim : DraftSimulation c R) (h : R s t) (k : ContentKit) :
    Edit.vet t (c.kit k) = Edit.vet s k := by
  simp only [Edit.vet, c.isEmpty_kit, sim.node? h, Option.isNone_map, sim.isAncestor h]
  rw [show (c.kit k).contentTypeId = k.contentTypeId from rfl, ← sim.type? h]
  rfl

theorem attach (sim : DraftSimulation c R) (h : R s t) (id : ContentId)
    (parent : Option ContentId) : R (Edit.attach s id parent) (Edit.attach t id parent) := by
  cases parent with
  | none => exact sim.setRoot h id
  | some parentId =>
    simp only [Edit.attach, sim.node? h]
    cases LiveTables.node? s parentId with
    | none => exact h
    | some n =>
      simp only [Option.map_some, c.withChild_node]
      exact sim.setNode h _ _

theorem detach (sim : DraftSimulation c R) (h : R s t) (id : ContentId)
    (parent : Option ContentId) : R (Edit.detach s id parent) (Edit.detach t id parent) := by
  cases parent with
  | none => exact sim.clearRoot h id
  | some parentId =>
    simp only [Edit.detach, sim.node? h]
    cases LiveTables.node? s parentId with
    | none => exact h
    | some n => exact sim.setNode h _ (n.withoutChild id)

theorem store (sim : DraftSimulation c R) (h : R s t) (previous : Option ContentNode)
    (n : ContentNode) :
    R (Edit.store s previous n) (Edit.store t (previous.map c.node) (c.node n)) := by
  rw [Edit.store, Edit.store, c.reindex_node, sim.index h]
  exact sim.setNode (sim.setIndex h _) _ _

theorem place (sim : DraftSimulation c R) (h : R s t) (k : ContentKit) (type : ContentType) :
    Agree R (Edit.place s k type) (Edit.place t (c.kit k) type) := by
  unfold Edit.place
  rw [show (c.kit k).id = k.id from rfl, sim.node? h]
  cases LiveTables.node? s k.id with
  | none => exact ⟨sim.attach (sim.store h none (.ofKit k type [])) _ _, rfl⟩
  | some previous =>
    have hstored := sim.store h (some previous) (.ofKit k type previous.childIds)
    have hparent : (c.node previous).parentId = (c.kit k).parentId ↔
        previous.parentId = k.parentId := Iff.rfl
    dsimp only [Option.map_some]
    simp only [hparent]
    split_ifs
    · exact ⟨hstored, rfl⟩
    · exact ⟨sim.attach (sim.detach hstored _ _) _ _, rfl⟩

theorem set (sim : DraftSimulation c R) (h : R s t) (k : ContentKit) :
    Agree R (Edit.set s k) (Edit.set t (c.kit k)) := by
  unfold Edit.set
  rw [sim.vet h]
  cases Edit.vet s k with
  | error reason => exact ⟨h, rfl⟩
  | ok type => exact sim.place h k type

theorem branch (sim : DraftSimulation c R) (h : R s t) (bound : Nat) (id : ContentId) :
    Edit.branch t bound id = (Edit.branch s bound id).map c.node := by
  induction bound generalizing id with
  | zero => rfl
  | succ bound ih =>
    rw [Edit.branch, Edit.branch, sim.node? h]
    cases LiveTables.node? s id with
    | none => rfl
    | some n =>
      simp only [Option.map_some, List.map_cons, List.map_flatMap, ← ih]
      rfl

theorem forget (sim : DraftSimulation c R) (h : R s t) (n : ContentNode) :
    R (Edit.forget s n) (Edit.forget t (c.node n)) := by
  rw [Edit.forget, Edit.forget, sim.index h]
  exact sim.clearNode (sim.setIndex h _) _

theorem removeSubtree (sim : DraftSimulation c R) (h : R s t) (id : ContentId) :
    Agree R (Edit.removeSubtree s id) (Edit.removeSubtree t id) := by
  unfold Edit.removeSubtree
  rw [sim.node? h, sim.branch h]
  cases LiveTables.node? s id with
  | none => exact ⟨h, rfl⟩
  | some n =>
    refine ⟨?_, (List.length_map _).symm⟩
    simp only [Option.map_some, List.foldl_map]
    exact List.foldl_rel (sim.detach h id n.parentId) fun m _ _ _ hrel ↦ sim.forget hrel m

theorem clear (sim : DraftSimulation c R) (h : R s t) (id : ContentId) :
    Agree R (Edit.clear s id) (Edit.clear t id) := by
  obtain ⟨hstate, hcount⟩ := sim.removeSubtree h id
  exact ⟨hstate, by simp only [Edit.clear, hcount]⟩

theorem setEach (sim : DraftSimulation c R) (h : R s t) (ks : List ContentKit) :
    Agree R (Edit.setEach s ks) (Edit.setEach t (ks.map c.kit)) := by
  unfold Edit.setEach
  rw [List.foldl_map]
  refine Agree.foldl (fun k x y hxy ↦ ?_) ks ⟨h, rfl⟩
  obtain ⟨hstate, houtcome⟩ := sim.set hxy.1 k
  exact ⟨hstate, by simp only [hxy.2, houtcome]⟩

theorem setOrdered (sim : DraftSimulation c R) (h : R s t) (ks : List ContentKit) :
    Agree R (Edit.setOrdered s ks) (Edit.setOrdered t (ks.map c.kit)) := by
  rw [Edit.setOrdered, Edit.setOrdered, c.mergeSort_map_kit]
  exact sim.setEach h _

theorem setAll (sim : DraftSimulation c R) (h : R s t) (ks : List ContentKit) :
    Agree R (Edit.setAll s ks) (Edit.setAll t (ks.map c.kit)) :=
  sim.setOrdered (sim.setIndex (sim.clearTree h) _) ks

theorem setBranch (sim : DraftSimulation c R) (h : R s t) (root : ContentId)
    (ks : List ContentKit) :
    Agree R (Edit.setBranch s root ks) (Edit.setBranch t root (ks.map c.kit)) :=
  sim.setOrdered (sim.clear h root).1 ks

/-! ### Changes of content types -/

theorem putType (sim : DraftSimulation c R) (h : R s t) (type : ContentType) :
    R (Retype.putType s type) (Retype.putType t type) := by
  unfold Retype.putType
  rw [sim.type? h]
  cases LiveTables.type? t type.id with
  | none => exact sim.setHandle (sim.setType h _ _) _ _
  | some previous =>
    dsimp only
    split_ifs
    · exact sim.setHandle (sim.setType h _ _) _ _
    · exact sim.setHandle (sim.setType (sim.clearHandle h _) _ _) _ _

theorem dropType (sim : DraftSimulation c R) (h : R s t) (id : ContentTypeId) :
    Agree R (Retype.dropType s id) (Retype.dropType t id) := by
  unfold Retype.dropType
  rw [sim.type? h]
  cases LiveTables.type? t id with
  | none => exact ⟨h, rfl⟩
  | some previous => exact ⟨sim.clearType (sim.clearHandle h _) _, rfl⟩

theorem removeEach (sim : DraftSimulation c R) (h : R s t) (ids : List ContentId) :
    Agree R (Retype.removeEach s ids) (Retype.removeEach t ids) := by
  refine Agree.foldl (fun id x y hxy ↦ ?_) ids ⟨h, rfl⟩
  obtain ⟨hstate, hcount⟩ := sim.removeSubtree hxy.1 id
  exact ⟨hstate, by simp only [hxy.2, hcount]⟩

theorem removeType (sim : DraftSimulation c R) (h : R s t) (id : ContentTypeId) :
    Agree R (Retype.removeType s id) (Retype.removeType t id) := by
  unfold Retype.removeType
  rw [sim.index h]
  obtain ⟨hremoved, hcount⟩ :=
    sim.removeEach (sim.setIndex h ((LiveTables.index t).eraseType id))
      ((LiveTables.index t).nodesOf id)
  obtain ⟨hdropped, hdefined⟩ := sim.dropType hremoved id
  exact ⟨hdropped, by simp only [hcount, hdefined]⟩

theorem removeTypes (sim : DraftSimulation c R) (h : R s t) (ids : List ContentTypeId) :
    Agree R (Retype.removeTypes s ids) (Retype.removeTypes t ids) := by
  refine Agree.foldl (fun id x y hxy ↦ ?_) ids ⟨h, rfl⟩
  obtain ⟨hstate, hcounts⟩ := sim.removeType hxy.1 id
  exact ⟨hstate, by simp only [hxy.2, hcounts]⟩

theorem rebindNode (sim : DraftSimulation c R) (h : R s t) (type : ContentType) (id : ContentId) :
    Agree R (Retype.rebindNode s type id) (Retype.rebindNode t type id) := by
  unfold Retype.rebindNode
  rw [sim.node? h]
  cases LiveTables.node? s id with
  | none => exact ⟨h, rfl⟩
  | some n => exact ⟨sim.setNode h _ (n.rebind type), rfl⟩

theorem rebindNodes (sim : DraftSimulation c R) (h : R s t) (type : ContentType)
    (except : List ContentId) :
    Agree R (Retype.rebindNodes s type except) (Retype.rebindNodes t type except) := by
  unfold Retype.rebindNodes
  rw [sim.index h]
  refine Agree.foldl (fun id x y hxy ↦ ?_) _ ⟨h, rfl⟩
  obtain ⟨hstate, hfound⟩ := sim.rebindNode hxy.1 type id
  exact ⟨hstate, by simp only [hxy.2, hfound]⟩

theorem rebindAll (sim : DraftSimulation c R) (h : R s t) (types : List ContentType)
    (except : List ContentId) :
    Agree R (Retype.rebindAll s types except) (Retype.rebindAll t types except) := by
  refine Agree.foldl (fun type x y hxy ↦ ?_) types ⟨h, rfl⟩
  obtain ⟨hstate, hcount⟩ := sim.rebindNodes hxy.1 type except
  exact ⟨hstate, by simp only [hxy.2, hcount]⟩

theorem updateTypes (sim : DraftSimulation c R) (h : R s t) (removed : List ContentTypeId)
    (refreshed : List ContentType) (ks : List ContentKit) :
    Agree R (Retype.updateTypes s removed refreshed ks)
      (Retype.updateTypes t removed refreshed (ks.map c.kit)) := by
  obtain ⟨hremoved, hcounts⟩ := sim.removeTypes h removed
  have hput : R (refreshed.foldl Retype.putType (Retype.removeTypes s removed).1)
      (refreshed.foldl Retype.putType (Retype.removeTypes t removed).1) :=
    List.foldl_rel hremoved fun type _ _ _ hrel ↦ sim.putType hrel type
  let used (k : ContentKit) : Bool := decide (k.contentTypeId ∈ refreshed.map ContentType.id)
  have hused : (ks.map c.kit).filter used = (ks.filter used).map c.kit := List.filter_map
  have hids : ((ks.filter used).map c.kit).map ContentKit.id =
      (ks.filter used).map ContentKit.id := List.map_map
  obtain ⟨hset, hreport⟩ := sim.setOrdered hput (ks.filter used)
  obtain ⟨hbound, hrebound⟩ := sim.rebindAll hset refreshed ((ks.filter used).map ContentKit.id)
  unfold Retype.updateTypes
  dsimp only
  rw [hused, hids]
  exact ⟨hbound, by simp only [used, hcounts, hreport, hrebound]⟩

theorem setAllTypes (sim : DraftSimulation c R) (h : R s t) (types : List ContentType) :
    Agree R (Retype.setAllTypes s types) (Retype.setAllTypes t types) := by
  unfold Retype.setAllTypes Retype.superseded
  rw [sim.types h]
  exact sim.updateTypes h _ _ _

theorem updateDataTypes (sim : DraftSimulation c R) (h : R s t) {ρ : Type} (ids : List DataTypeId)
    (resolve : ρ → ContentType → ρ × Option ContentType) (r : ρ) :
    Agree R (Retype.updateDataTypes s ids resolve r) (Retype.updateDataTypes t ids resolve r) := by
  unfold Retype.updateDataTypes Retype.affectedTypes
  rw [sim.types h]
  obtain ⟨hstate, hrebuild⟩ := sim.updateTypes h []
    (Retype.resolveEach resolve r
      ((LiveTables.types t).filter fun type ↦ ids.any type.usesDataType)).2 []
  rw [List.map_nil] at hstate hrebuild
  exact ⟨hstate, by simp only [hrebuild]⟩

/-- An operation of a writer gives one answer on related states when the drafts of its kits are
changed as those of the nodes are, and leaves the states related. -/
theorem run (sim : DraftSimulation c R) (h : R s t) (call : WriterCall) :
    Agree R (call.run s) ((c.call call).run t) := by
  cases call with
  | set k => exact (sim.set h k).answer _
  | clear id => exact (sim.clear h id).answer _
  | setAll ks => exact (sim.setAll h ks).answer _
  | setBranch root ks => exact (sim.setBranch h root ks).answer _
  | setAllTypes types => exact (sim.setAllTypes h types).answer _
  | updateTypes removed refreshed ks => exact (sim.updateTypes h removed refreshed ks).answer _
  | updateDataTypes ids resolve r => exact (sim.updateDataTypes h ids resolve r).answer _

end DraftSimulation

namespace TableSimulation

variable {σ τ : Type} [LiveTables σ] [LiveTables τ] {R : σ → τ → Prop} {s : σ} {t : τ}

theorem draftSimulation (sim : TableSimulation R) : DraftSimulation .unchanged R where
  node? h id := (sim.node? h id).symm.trans Option.map_id'.symm
  setNode := sim.setNode
  clearNode := sim.clearNode
  setRoot := sim.setRoot
  clearRoot := sim.clearRoot
  clearTree := sim.clearTree
  type? := sim.type?
  setType := sim.setType
  clearType := sim.clearType
  types := sim.types
  setHandle := sim.setHandle
  clearHandle := sim.clearHandle
  index := sim.index
  setIndex := sim.setIndex

/-- Every operation of a writer gives one answer on related states and leaves them related. -/
theorem run (sim : TableSimulation R) (h : R s t) (call : WriterCall) :
    Agree R (call.run s) (call.run t) := by
  have hrun := sim.draftSimulation.run h call
  rwa [DraftChange.call_unchanged] at hrun

end TableSimulation

end VersionedContent
