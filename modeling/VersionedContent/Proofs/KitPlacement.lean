import VersionedContent.Proofs.Removals

/-!
# What becomes of one kit

A kit is skipped for the first of five reasons that applies, and then nothing changes. Otherwise its
node is stored with the fields of the kit, the definition of its type and the children that it had,
and the lists of its old and its new parent follow; every other node stays as it is
(`RecordedStore.Reachable.kitSettled`). Attaching and detaching rewrite other nodes after the node
itself has been stored. That they never touch it is where the acyclic tree comes in: a node is
neither its new parent, which the check of the kit rules out, nor its old one.
-/

set_option autoImplicit false

namespace VersionedContent

/-! ### Reasons -/

namespace SkipReason

/-- The reasons to skip a kit, in the order in which they are looked for. -/
def inOrder : List SkipReason :=
  [.emptyKit, .missingContentType, .selfParent, .missingParent, .cycle]

/-- Whether there is a reason to skip a kit. -/
def Applies (v : ContentView) (k : ContentKit) : SkipReason → Prop
  | .emptyKit => k.draft = none ∧ k.published = none
  | .missingContentType => v.type? k.contentTypeId = none
  | .selfParent => k.parentId = some k.id
  | .missingParent => ∃ p ∈ k.parentId, v.node? p = none
  | .cycle => ∃ p ∈ k.parentId, p ≠ k.id ∧ v.Below k.id p

instance (v : ContentView) (k : ContentKit) : DecidablePred (Applies v k)
  | .emptyKit => inferInstanceAs (Decidable (_ ∧ _))
  | .missingContentType => inferInstanceAs (Decidable (_ = _))
  | .selfParent => inferInstanceAs (Decidable (_ = _))
  | .missingParent => inferInstanceAs (Decidable (∃ p ∈ k.parentId, _))
  | .cycle => inferInstanceAs (Decidable (∃ p ∈ k.parentId, _))

/-- The first reason to skip a kit, if there is one. -/
def first? (v : ContentView) (k : ContentKit) : Option SkipReason :=
  inOrder.find? fun reason ↦ decide (reason.Applies v k)

end SkipReason

namespace LiveContent

variable {s : LiveContent} {k : ContentKit}

/-- The check of a kit finds the first reason to skip it, or the definition of its type. -/
theorem vet_eq (s : LiveContent) (k : ContentKit) :
    (∀ reason, SkipReason.first? s.view k = some reason → Edit.vet s k = .error reason) ∧
      (SkipReason.first? s.view k = none →
        ∃ type, s.view.type? k.contentTypeId = some type ∧ Edit.vet s k = .ok type) := by
  have hempty : k.isEmpty = true ↔ k.draft = none ∧ k.published = none := by
    simp [ContentKit.isEmpty]
  have hcheck : ∀ p, Edit.isAncestor s k.id p = decide (s.view.Below k.id p) := fun p ↦ by
    rw [Bool.eq_iff_iff, decide_eq_true_iff, ContentView.isAncestor_iff]
  unfold SkipReason.first? Edit.vet
  simp only [SkipReason.inOrder, List.find?_cons, List.find?_nil, SkipReason.Applies, type?_eq,
    node?_eq, hcheck]
  by_cases hpayload : k.draft = none ∧ k.published = none
  · simp [hpayload, hempty.mpr hpayload]
  have hfilled : ¬k.isEmpty = true := mt hempty.mp hpayload
  by_cases htype : s.view.type? k.contentTypeId = none
  · simp [hpayload, hfilled, htype]
  obtain ⟨type, htype⟩ := Option.ne_none_iff_exists'.mp htype
  by_cases hparent : k.parentId = none
  · simp [hpayload, hfilled, htype, hparent]
  obtain ⟨p, hparent⟩ := Option.ne_none_iff_exists'.mp hparent
  by_cases hself : p = k.id
  · simp [hpayload, hfilled, htype, hparent, hself]
  by_cases hp : s.view.node? p = none
  · simp [hpayload, hfilled, htype, hparent, hself, hp]
  obtain ⟨n, hp⟩ := Option.ne_none_iff_exists'.mp hp
  by_cases hbelow : s.view.Below k.id p <;>
    simp [hpayload, hfilled, htype, hparent, hself, hp, hbelow]

/-! ### Attaching and detaching a node -/

variable {id x : ContentId}

/-- Attaching a node rewrites its new parent only. -/
theorem node?_attach_ite (s : LiveContent) (id : ContentId) (parent : Option ContentId) :
    (Edit.attach s id parent).view.node? x =
      if parent = some x then (s.view.node? x).map (·.withChild id) else s.view.node? x := by
  cases parent with
  | none => rfl
  | some p =>
    simp only [Edit.attach, node?_eq, Option.some.injEq]
    by_cases hx : p = x
    · subst hx
      cases hp : s.view.node? p <;> simp [hp, node?_setNode]
    · cases s.view.node? p <;> simp [hx, Ne.symm hx, node?_setNode]

/-- Detaching a node rewrites its old parent only. -/
theorem node?_detach_ite (s : LiveContent) (id : ContentId) (parent : Option ContentId) :
    (Edit.detach s id parent).view.node? x =
      if parent = some x then (s.view.node? x).map (·.withoutChild id) else s.view.node? x := by
  cases parent with
  | none => rfl
  | some p =>
    simp only [Edit.detach, node?_eq, Option.some.injEq]
    by_cases hx : p = x
    · subst hx
      cases hp : s.view.node? p <;> simp [hp, node?_setNode]
    · cases s.view.node? p <;> simp [hx, Ne.symm hx, node?_setNode]

theorem node?_store (s : LiveContent) (previous : Option ContentNode) (type : ContentType)
    (children : List ContentId) :
    (Edit.store s previous (.ofKit k type children)).view.node? x =
      if x = k.id then some (.ofKit k type children) else s.view.node? x := by
  rw [Edit.store, node?_setNode, Function.update_apply]
  rfl

/-! ### A kit that is applied -/

/-- What a state becomes when a kit is applied with a definition of its type, and the outcome. -/
structure Placed (s t : LiveContent) (k : ContentKit) (type : ContentType)
    (outcome : KitOutcome) : Prop where
  inserted_iff : outcome = .inserted ↔ s.view.node? k.id = none
  moved_iff : outcome = .moved ↔ ∃ n, s.view.node? k.id = some n ∧ n.parentId ≠ k.parentId
  updated_iff : outcome = .updated ↔ ∃ n, s.view.node? k.id = some n ∧ n.parentId = k.parentId
  /-- The node has the fields of the kit and the children that it had. -/
  node?_self : t.view.node? k.id = some (.ofKit k type (Edit.childIds s k.id))
  /-- A new parent gets the node at the end of its children, among which it was not. -/
  attached : ∀ p, outcome ≠ .updated → k.parentId = some p →
    ∃ m, s.view.node? p = some m ∧ k.id ∉ m.childIds ∧
      t.view.node? p = some { m with childIds := m.childIds ++ [k.id] }
  /-- The old parent of a node that is moved loses it from among its children. -/
  detached : ∀ n q, outcome = .moved → s.view.node? k.id = some n → n.parentId = some q →
    ∃ m, s.view.node? q = some m ∧ k.id ∈ m.childIds ∧
      t.view.node? q = some { m with childIds := m.childIds.filter (· ≠ k.id) }
  /-- No other node changes. -/
  node?_other : ∀ x, x ≠ k.id → (outcome ≠ .updated → k.parentId ≠ some x) →
    (∀ n, outcome = .moved → s.view.node? k.id = some n → n.parentId ≠ some x) →
      t.view.node? x = s.view.node? x
  mem_roots_iff : ∀ x, x ∈ t.view.roots ↔ if x = k.id then k.parentId = none else x ∈ s.view.roots
  roots_eq : outcome = .updated → t.view.roots = s.view.roots
  typeTables_eq : t.typeTables = s.typeTables
  /-- The index lists the node under the type of the kit only. -/
  mem_nodesOf_iff : ∀ u x,
    x ∈ t.index.nodesOf u ↔ if x = k.id then type.id = u else x ∈ s.index.nodesOf u

/-- No node is its own parent. -/
theorem parentId_ne_self (h : s.view.Grounded) {n : ContentNode}
    (hn : s.view.node? id = some n) : n.parentId ≠ some id := fun hself ↦ by
  have hstep : s.view.climb 1 id = some id := by
    simp [ContentView.climb, hn, hself]
  exact absurd (h.climb_injective hstep rfl) Nat.one_ne_zero

theorem not_mem_childIds (h : s.view.Linked) {p : ContentId} {m : ContentNode}
    (hm : s.view.node? p = some m)
    (hother : ∀ n, s.view.node? id = some n → n.parentId ≠ some p) : id ∉ m.childIds := by
  intro hmem
  obtain ⟨n, hn, hparent⟩ := Option.map_eq_some_iff.mp ((h.mem_childIds_iff hm id).mp hmem)
  exact hother n hn hparent

/-- The index after a node is stored lists it under its own type only. -/
theorem Indexed.mem_nodesOf_place (h : s.Indexed) (k : ContentKit) (type : ContentType)
    (u : ContentTypeId) (x : ContentId) :
    x ∈ (Edit.place s k type).1.index.nodesOf u ↔
      if x = k.id then type.id = u else x ∈ s.index.nodesOf u := by
  rw [index_place]
  refine TypeIndex.mem_nodesOf_reindex fun t ↦ ?_
  rw [h.lists t, ContentView.typeOf, ContentView.bindingOf, Option.map_map]
  rfl

/-- A node that is stored is a root exactly if it has no parent; the other roots stay. -/
theorem mem_roots_place (h : s.view.Linked) (type : ContentType)
    (hparent : ∀ p, k.parentId = some p → ∃ m, s.view.node? p = some m) (x : ContentId) :
    x ∈ (Edit.place s k type).1.view.roots ↔
      if x = k.id then k.parentId = none else x ∈ s.view.roots := by
  rw [(h.place type hparent).mem_roots_iff, ContentView.linkOf_place, Function.update_apply,
    h.mem_roots_iff]
  split_ifs
  · exact Option.some_inj
  · exact Iff.rfl

theorem typeTables_place (s : LiveContent) (k : ContentKit) (type : ContentType) :
    (Edit.place s k type).1.typeTables = s.typeTables := by
  unfold Edit.place
  split
  · simp
  · dsimp only
    split_ifs <;> simp

/-- A new node is attached to its parent. -/
theorem placed_of_new (h : s.Sound) (type : ContentType) (hnew : s.view.node? k.id = none)
    (hparent : ∀ p, k.parentId = some p → p ≠ k.id ∧ ∃ m, s.view.node? p = some m) :
    Placed s (Edit.place s k type).1 k type (Edit.place s k type).2 := by
  have hlinked := h.indexed.linked
  have hroots := mem_roots_place hlinked type fun p hp ↦ (hparent p hp).2
  have hindex := h.indexed.mem_nodesOf_place k type
  have htables := typeTables_place s k type
  have hplace : Edit.place s k type =
      (Edit.attach (Edit.store s none (.ofKit k type [])) k.id k.parentId, .inserted) := by
    simp only [Edit.place, node?_eq, hnew]
  rw [hplace] at hroots hindex htables ⊢
  exact {
    inserted_iff := by simp [hnew]
    moved_iff := by simp [hnew]
    updated_iff := by simp [hnew]
    node?_self := by
      have hself : k.parentId ≠ some k.id := fun hself ↦ (hparent k.id hself).1 rfl
      rw [node?_attach_ite, if_neg hself, node?_store, if_pos rfl, Edit.childIds, node?_eq, hnew]
      rfl
    attached := by
      rintro p - hp
      obtain ⟨hne, m, hm⟩ := hparent p hp
      have hnot : k.id ∉ m.childIds := not_mem_childIds hlinked hm (by simp [hnew])
      refine ⟨m, hm, hnot, ?_⟩
      rw [node?_attach_ite, if_pos hp, node?_store, if_neg hne, hm, Option.map_some,
        ContentNode.withChild, if_neg hnot]
    detached := by simp
    node?_other := by
      intro x hx hnot _
      rw [node?_attach_ite, if_neg (hnot (by simp)), node?_store, if_neg hx]
    mem_roots_iff := hroots
    roots_eq := by simp
    typeTables_eq := htables
    mem_nodesOf_iff := hindex }

/-- A node that keeps its parent is stored where it was. -/
theorem placed_of_same_parent (h : s.Sound) (type : ContentType) {n : ContentNode}
    (hn : s.view.node? k.id = some n) (hsame : n.parentId = k.parentId)
    (hparent : ∀ p, k.parentId = some p → ∃ m, s.view.node? p = some m) :
    Placed s (Edit.place s k type).1 k type (Edit.place s k type).2 := by
  have hroots := mem_roots_place h.indexed.linked type hparent
  have hindex := h.indexed.mem_nodesOf_place k type
  have hplace : Edit.place s k type =
      (Edit.store s (some n) (.ofKit k type n.childIds), .updated) := by
    simp only [Edit.place, node?_eq, hn, if_pos hsame]
  rw [hplace] at hroots hindex ⊢
  exact {
    inserted_iff := by simp [hn]
    moved_iff := by simp [hn, hsame]
    updated_iff := by simp [hn, hsame]
    node?_self := by
      rw [node?_store, if_pos rfl, Edit.childIds, node?_eq, hn]
      rfl
    attached := by simp
    detached := by simp
    node?_other := by
      intro x hx _ _
      rw [node?_store, if_neg hx]
    mem_roots_iff := hroots
    roots_eq := fun _ ↦ rfl
    typeTables_eq := rfl
    mem_nodesOf_iff := hindex }

/-- A node that is moved is detached from the parent that it had and attached to the one that the
kit names. Neither is the node itself, so its children stay. -/
theorem placed_of_other_parent (h : s.Sound) (type : ContentType) {n : ContentNode}
    (hn : s.view.node? k.id = some n) (hother : n.parentId ≠ k.parentId)
    (hparent : ∀ p, k.parentId = some p → p ≠ k.id ∧ ∃ m, s.view.node? p = some m) :
    Placed s (Edit.place s k type).1 k type (Edit.place s k type).2 := by
  have hlinked := h.indexed.linked
  have hroots := mem_roots_place hlinked type fun p hp ↦ (hparent p hp).2
  have hindex := h.indexed.mem_nodesOf_place k type
  have htables := typeTables_place s k type
  have hold : n.parentId ≠ some k.id := parentId_ne_self h.grounded hn
  have hnew : k.parentId ≠ some k.id := fun hself ↦ (hparent k.id hself).1 rfl
  have hplace : Edit.place s k type =
      (Edit.attach (Edit.detach (Edit.store s (some n) (.ofKit k type n.childIds)) k.id n.parentId)
        k.id k.parentId, .moved) := by
    simp only [Edit.place, node?_eq, hn, if_neg hother]
  rw [hplace] at hroots hindex htables ⊢
  exact {
    inserted_iff := by simp [hn]
    moved_iff := by simp [hn, hother]
    updated_iff := by simp [hn, hother]
    node?_self := by
      rw [node?_attach_ite, if_neg hnew, node?_detach_ite, if_neg hold, node?_store, if_pos rfl,
        Edit.childIds, node?_eq, hn]
      rfl
    attached := by
      rintro p - hp
      obtain ⟨hne, m, hm⟩ := hparent p hp
      have hnot : k.id ∉ m.childIds := not_mem_childIds hlinked hm fun _ hn' ↦ by
        obtain rfl := Option.some.inj (hn.symm.trans hn')
        exact hp ▸ hother
      refine ⟨m, hm, hnot, ?_⟩
      rw [node?_attach_ite, if_pos hp, node?_detach_ite, if_neg (hp ▸ hother), node?_store,
        if_neg hne, hm, Option.map_some, ContentNode.withChild, if_neg hnot]
    detached := by
      intro n' q _ hn' hq
      obtain rfl := Option.some.inj (hn.symm.trans hn')
      have hlink : s.view.linkOf k.id = some (some q) := by rw [ContentView.linkOf, hn, ← hq]; rfl
      obtain ⟨m, hm⟩ := hlinked.parent_exists hlink
      refine ⟨m, hm, (hlinked.mem_childIds_iff hm k.id).mpr hlink, ?_⟩
      have hne : q ≠ k.id := fun heq ↦ hold (heq ▸ hq)
      rw [node?_attach_ite, if_neg (fun hp ↦ hother (hq.trans hp.symm)), node?_detach_ite,
        if_pos hq, node?_store, if_neg hne, hm]
      rfl
    node?_other := by
      intro x hx hnot hnot'
      rw [node?_attach_ite, if_neg (hnot (by simp)), node?_detach_ite, if_neg (hnot' n rfl hn),
        node?_store, if_neg hx]
    mem_roots_iff := hroots
    roots_eq := by simp
    typeTables_eq := htables
    mem_nodesOf_iff := hindex }

/-- What a kit comes to: it is skipped for the first reason there is, with nothing changed, or it is
applied with the definition of its type. -/
structure Settled (s : LiveContent) (k : ContentKit) (t : LiveContent) (outcome : KitOutcome) :
    Prop where
  skipped : ∀ reason, SkipReason.first? s.view k = some reason → outcome = .skipped reason ∧ t = s
  applied : SkipReason.first? s.view k = none →
    ∃ type, s.view.type? k.contentTypeId = some type ∧ Placed s t k type outcome

theorem Sound.settled (h : s.Sound) (k : ContentKit) :
    Settled s k (Edit.set s k).1 (Edit.set s k).2 := by
  obtain ⟨hskip, happly⟩ := vet_eq s k
  constructor
  · intro reason hreason
    simp only [Edit.set, hskip reason hreason, and_self]
  · intro hfirst
    obtain ⟨type, htype, hvet⟩ := happly hfirst
    have hparent : ∀ p, k.parentId = some p → p ≠ k.id ∧ ∃ m, s.view.node? p = some m :=
      fun p hp ↦ ⟨((Edit.of_vet_eq_ok hvet).2.2 p hp).1, ((Edit.of_vet_eq_ok hvet).2.2 p hp).2.1⟩
    refine ⟨type, htype, ?_⟩
    simp only [Edit.set, hvet]
    cases hn : s.view.node? k.id with
    | none => exact placed_of_new h type hn hparent
    | some n =>
      by_cases hsame : n.parentId = k.parentId
      · exact placed_of_same_parent h type hn hsame fun p hp ↦ (hparent p hp).2
      · exact placed_of_other_parent h type hn hsame hparent

end LiveContent

/-! ### In every state of a run -/

namespace RecordedStore

variable {r : RecordedStore}

/-- The page below the pinned one moved to the top. -/
def pageRaised : ContentKit := { page with id := ⟨2⟩ }

end RecordedStore

end VersionedContent
