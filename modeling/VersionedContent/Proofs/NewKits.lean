import VersionedContent.Proofs.KitPlacement

/-!
# Kits for new nodes

Nothing is below a node that is not there. So a kit for such a node closes no circle: it is applied
exactly if it has a payload, a defined type, and no parent or one that is there by its turn
(`Edit.Fits`). Kits for different new nodes that are applied one after another add to the tree the
nodes of those that fit, each at the end of the children of its parent, and touch nothing else
(`LiveContent.Sound.grown_setEach`); the others are counted under the reason for which they do not
fit.
-/

set_option autoImplicit false

namespace VersionedContent

/-! ### Children -/

/-- The ids of the kits below a parent, in the order of the kits. -/
def ContentKit.idsUnder (ks : List ContentKit) (p : ContentId) : List ContentId :=
  (ks.filter (·.parentId = some p)).map ContentKit.id

theorem ContentKit.idsUnder_concat (ks : List ContentKit) (k : ContentKit) (p : ContentId) :
    idsUnder (ks ++ [k]) p = idsUnder ks p ++ if k.parentId = some p then [k.id] else [] := by
  unfold idsUnder
  rw [List.filter_append, List.map_append]
  congr 1
  split_ifs with hunder <;> simp [hunder]

namespace ContentNode

/-- The node with more children behind those that it has. -/
def adopting (n : ContentNode) (children : List ContentId) : ContentNode :=
  { n with childIds := n.childIds ++ children }

theorem adopting_nil (n : ContentNode) : n.adopting [] = n := by
  rw [adopting, List.append_nil]

theorem adopting_append (n : ContentNode) (first second : List ContentId) :
    (n.adopting first).adopting second = n.adopting (first ++ second) := by
  simp only [adopting, List.append_assoc]

end ContentNode

/-! ### Reports -/

/-- The reason to skip a kit for a new node that does not fit. -/
def SkipReason.misfit (v : ContentView) (k : ContentKit) : SkipReason :=
  if k.isEmpty then .emptyKit
  else if v.type? k.contentTypeId = none then .missingContentType
  else .missingParent

namespace LoadReport

/-- The report on kits for new nodes of which some are applied. -/
def on (v : ContentView) (applied : ContentKit → Bool) (ks : List ContentKit) : LoadReport where
  applied := ks.countP applied
  skipped := ks.countP fun k ↦ !applied k
  missingParent := ks.countP fun k ↦
    !k.isEmpty && (v.type? k.contentTypeId).isSome && !applied k
  missingContentType := ks.countP fun k ↦ !k.isEmpty && (v.type? k.contentTypeId).isNone

variable {v : ContentView} {picked : ContentKit → Bool} {ks : List ContentKit} {k : ContentKit}

theorem on_concat_of_picked (hk : picked k = true)
    (htyped : ∃ type, v.type? k.contentTypeId = some type) :
    on v picked (ks ++ [k]) = (on v picked ks).record .inserted := by
  obtain ⟨type, htype⟩ := htyped
  simp [on, record, List.countP_append, hk, htype]

theorem on_concat_of_not_picked (hk : picked k = false) :
    on v picked (ks ++ [k]) = (on v picked ks).record (.skipped (.misfit v k)) := by
  unfold SkipReason.misfit
  split_ifs with hpayload htype <;> simp_all [on, record, List.countP_append]

theorem on_perm {others : List ContentKit} (hperm : ks.Perm others) :
    on v picked ks = on v picked others := by
  unfold on
  simp only [hperm.countP_eq]

theorem on_all (htyped : ∀ k ∈ ks, ∃ type, v.type? k.contentTypeId = some type) :
    on v (fun _ ↦ true) ks = ⟨ks.length, 0, 0, 0⟩ := by
  have hnone : ks.countP (fun k ↦ !k.isEmpty && (v.type? k.contentTypeId).isNone) = 0 := by
    refine List.countP_eq_zero.mpr fun k hk ↦ ?_
    obtain ⟨type, htype⟩ := htyped k hk
    simp [htype]
  unfold on
  simp [hnone]

end LoadReport

/-! ### The turn of a kit -/

namespace Edit

/-- A kit that is applied once some others are: it has a payload and a defined type, and its parent
is in the tree or described by one of the others. -/
structure Fits (v : ContentView) (done : List ContentKit) (k : ContentKit) : Prop where
  payload : k.isEmpty = false
  typed : ∃ type, v.type? k.contentTypeId = some type
  parent : ∀ p, k.parentId = some p → (∃ n, v.node? p = some n) ∨ ∃ d ∈ done, d.id = p

/-- The kits of a list that are picked are those that fit once the picked ones before them are
applied. -/
def Picks (v : ContentView) (picked : ContentKit → Bool) (ks : List ContentKit) : Prop :=
  ∀ done k rest, ks = done ++ k :: rest → (picked k = true ↔ Fits v (done.filter picked) k)

variable {ks : List ContentKit} {k : ContentKit}

theorem Picks.of_concat {v : ContentView} {picked : ContentKit → Bool}
    (h : Picks v picked (ks ++ [k])) : Picks v picked ks := by
  rintro done d rest rfl
  exact h done d (rest ++ [k]) (by simp)

theorem setEach_concat {σ : Type} [LiveTables σ] (s : σ) (ks : List ContentKit) (k : ContentKit) :
    setEach s (ks ++ [k]) =
      ((set (setEach s ks).1 k).1, (setEach s ks).2.record (set (setEach s ks).1 k).2) := by
  unfold setEach
  rw [List.foldl_append]
  rfl

theorem pairwise_levels (ks : List ContentKit) :
    (ks.mergeSort levelLE).Pairwise fun a b ↦ a.level ≤ b.level := by
  have hle : ∀ a b, levelLE a b = true ↔ a.level ≤ b.level := fun _ _ ↦ decide_eq_true_iff
  have hsorted : (ks.mergeSort levelLE).Pairwise fun a b ↦ levelLE a b = true := by
    refine List.pairwise_mergeSort (fun a b c hab hbc ↦ ?_) (fun a b ↦ ?_) ks
    · exact (hle a c).mpr (UInt32.le_trans ((hle a b).mp hab) ((hle b c).mp hbc))
    · rw [Bool.or_eq_true, hle, hle]
      exact UInt32.le_total a.level b.level
  exact hsorted.imp fun {a b} ↦ (hle a b).mp

/-- A kit at a level above another one has its turn before it. -/
theorem mem_of_level_lt {done rest : List ContentKit}
    (hsorted : ks.mergeSort levelLE = done ++ k :: rest) {p : ContentKit} (hp : p ∈ ks)
    (hlt : p.level < k.level) : p ∈ done := by
  have horder := pairwise_levels ks
  rw [hsorted, List.pairwise_append, List.pairwise_cons] at horder
  have hmem : p ∈ done ++ k :: rest := hsorted ▸ List.mem_mergeSort.mpr hp
  rcases List.mem_append.mp hmem with hdone | hlater
  · exact hdone
  · have hle : k.level ≤ p.level := by
      rcases List.mem_cons.mp hlater with rfl | hrest
      · exact UInt32.le_refl _
      · exact horder.2.1.1 p hrest
    exact absurd hlt (UInt32.not_lt.mpr hle)

/-- Kits that stand in the order of their levels are applied in that order. -/
theorem setOrdered_of_pairwise {σ : Type} [LiveTables σ] (s : σ)
    (hlevels : ks.Pairwise fun a b ↦ levelLE a b = true) : setOrdered s ks = setEach s ks := by
  rw [setOrdered, List.mergeSort_of_pairwise hlevels]

end Edit

/-! ### Nodes added to a tree -/

namespace LiveContent

open ContentView

/-- The tables with the nodes of some kits added: each node has the kits below it as its children,
the nodes that were there have them behind the children that they had. -/
structure Grown (s : LiveContent) (ks : List ContentKit) (t : LiveContent) : Prop where
  node?_new : ∀ k ∈ ks, ∃ type, s.view.type? k.contentTypeId = some type ∧
    t.view.node? k.id = some (.ofKit k type (ContentKit.idsUnder ks k.id))
  node?_old : ∀ x, x ∉ ks.map ContentKit.id →
    t.view.node? x = (s.view.node? x).map (·.adopting (ContentKit.idsUnder ks x))
  mem_roots_iff : ∀ x, x ∈ t.view.roots ↔
    x ∈ s.view.roots ∨ ∃ k ∈ ks, k.id = x ∧ k.parentId = none
  mem_nodesOf_iff : ∀ u x, x ∈ t.index.nodesOf u ↔
    x ∈ s.index.nodesOf u ∨ ∃ k ∈ ks, k.id = x ∧ k.contentTypeId = u
  typeTables_eq : t.typeTables = s.typeTables

variable {s t : LiveContent} {k : ContentKit} {ks : List ContentKit} {x : ContentId}
variable {picked : ContentKit → Bool}

theorem grown_nil (s : LiveContent) : s.Grown [] s where
  node?_new := by simp
  node?_old x _ := by simp [ContentKit.idsUnder, ContentNode.adopting_nil]
  mem_roots_iff := by simp
  mem_nodesOf_iff := by simp
  typeTables_eq := rfl

/-- What is there by the turn of a kit: the nodes that were there and those of the kits before. -/
theorem Grown.exists_node?_iff (h : s.Grown ks t) :
    (∃ n, t.view.node? x = some n) ↔ (∃ n, s.view.node? x = some n) ∨ ∃ k ∈ ks, k.id = x := by
  by_cases hx : x ∈ ks.map ContentKit.id
  · obtain ⟨k, hk, rfl⟩ := List.mem_map.mp hx
    obtain ⟨type, -, hnode⟩ := h.node?_new k hk
    exact iff_of_true ⟨_, hnode⟩ (Or.inr ⟨k, hk, rfl⟩)
  · have hnone : ¬∃ k ∈ ks, k.id = x := fun hk ↦ hx (List.mem_map.mpr hk)
    rw [or_iff_left hnone, h.node?_old x hx]
    cases s.view.node? x <;> simp

theorem Grown.type?_eq (h : s.Grown ks t) : t.view.type? = s.view.type? :=
  type?_of_typeTables h.typeTables_eq

/-! ### One new kit -/

/-- A kit for a new node is applied if it fits; there is one reason left if it does not. -/
theorem first?_of_new (h : s.view.Linked) (hnew : s.view.node? k.id = none)
    (hself : k.parentId ≠ some k.id) :
    (Edit.Fits s.view [] k → SkipReason.first? s.view k = none) ∧
      (¬Edit.Fits s.view [] k → SkipReason.first? s.view k = some (.misfit s.view k)) := by
  have hempty : (k.draft = none ∧ k.published = none) ↔ k.isEmpty = true := by
    simp [ContentKit.isEmpty]
  have hcycle : ¬∃ p ∈ k.parentId, p ≠ k.id ∧ s.view.Below k.id p := by
    rintro ⟨p, -, hne, hbelow⟩
    exact hne (h.eq_of_below hnew hbelow)
  unfold SkipReason.first? SkipReason.misfit
  simp only [SkipReason.inOrder, List.find?_cons, List.find?_nil, SkipReason.Applies, hempty, hself,
    hcycle, decide_false]
  by_cases hpayload : k.isEmpty = true
  · refine ⟨fun hfits ↦ absurd hpayload (by simp [hfits.payload]), fun _ ↦ ?_⟩
    simp only [hpayload, decide_true, if_true]
  by_cases htype : s.view.type? k.contentTypeId = none
  · refine ⟨fun hfits ↦ absurd htype (Option.ne_none_iff_exists'.mpr hfits.typed), fun _ ↦ ?_⟩
    simp only [hpayload, htype, Bool.false_eq_true, decide_true, decide_false, if_true, if_false]
  simp only [hpayload, htype, Bool.false_eq_true, decide_false, if_false]
  by_cases hmissing : ∃ p ∈ k.parentId, s.view.node? p = none
  · refine ⟨fun hfits ↦ ?_, fun _ ↦ by simp only [hmissing, decide_true]⟩
    obtain ⟨p, hp, hnone⟩ := hmissing
    obtain ⟨n, hn⟩ | ⟨d, hd, -⟩ := hfits.parent p hp
    · rw [hnone] at hn
      contradiction
    · contradiction
  · refine ⟨fun _ ↦ by simp only [hmissing, decide_false], fun hnot ↦ ?_⟩
    refine absurd ⟨by simpa using hpayload, Option.ne_none_iff_exists'.mp htype, fun p hp ↦ ?_⟩ hnot
    exact Or.inl (Option.ne_none_iff_exists'.mp fun hnone ↦ hmissing ⟨p, hp, hnone⟩)

/-- A new node that is stored goes behind the children of its parent and has none itself. -/
theorem Placed.node?_of_new {type : ContentType} {outcome : KitOutcome}
    (h : Placed s t k type outcome) (hnew : s.view.node? k.id = none) (hx : x ≠ k.id) :
    t.view.node? x =
      (s.view.node? x).map (·.adopting (if k.parentId = some x then [k.id] else [])) := by
  obtain rfl := h.inserted_iff.mpr hnew
  by_cases hparent : k.parentId = some x
  · obtain ⟨m, hm, -, hafter⟩ := h.attached x (by simp) hparent
    rw [hafter, hm, if_pos hparent]
    rfl
  · rw [h.node?_other x hx (fun _ ↦ hparent) (by simp), if_neg hparent]
    cases s.view.node? x <;> simp [ContentNode.adopting_nil]

/-- What is said of the kits before a new one and of the new one. -/
theorem exists_mem_concat_iff {P : ContentKit → Prop} {old : Prop} (hold : old → x ≠ k.id)
    (hother : ∀ d ∈ ks, d.id ≠ k.id) :
    (if x = k.id then P k else old ∨ ∃ d ∈ ks, d.id = x ∧ P d) ↔
      old ∨ ∃ d ∈ ks ++ [k], d.id = x ∧ P d := by
  simp only [List.mem_append, List.mem_singleton, or_and_right, exists_or, exists_eq_left]
  split_ifs with hx
  · subst hx
    have hnone : ¬∃ d ∈ ks, d.id = k.id ∧ P d := fun ⟨d, hd, heq, _⟩ ↦ hother d hd heq
    simp [hnone, mt hold]
  · simp [Ne.symm hx]

/-- Whatever is the parent of a kit that has been applied is there. -/
theorem Grown.idsUnder_eq_nil (h : s.Grown ks t) (hlinked : t.view.Linked)
    (hnew : t.view.node? x = none) : ContentKit.idsUnder ks x = [] := by
  refine List.map_eq_nil_iff.mpr (List.filter_eq_nil_iff.mpr fun d hd hunder ↦ ?_)
  obtain ⟨type, -, hnode⟩ := h.node?_new d hd
  have hlink : t.view.linkOf d.id = some (some x) := by
    rw [linkOf, hnode, Option.map_some]
    exact congrArg some (of_decide_eq_true hunder)
  obtain ⟨n, hn⟩ := hlinked.parent_exists hlink
  rw [hnew] at hn
  contradiction

/-- A kit that is applied adds its node to those of the kits before. -/
theorem Grown.concat (h : s.Grown ks t) (ht : t.Sound) (hs : s.Indexed)
    (hnew : t.view.node? k.id = none) (hself : k.parentId ≠ some k.id) {u : LiveContent}
    {type : ContentType} {outcome : KitOutcome} (htype : t.view.type? k.contentTypeId = some type)
    (hplaced : Placed t u k type outcome) : s.Grown (ks ++ [k]) u := by
  have htype : s.view.type? k.contentTypeId = some type := h.type?_eq ▸ htype
  have hnot : ¬((∃ n, s.view.node? k.id = some n) ∨ ∃ d ∈ ks, d.id = k.id) :=
    mt h.exists_node?_iff.mpr (by simp [hnew])
  have hother : ∀ d ∈ ks, d.id ≠ k.id := fun d hd heq ↦ hnot (Or.inr ⟨d, hd, heq⟩)
  have hfree : ∀ n, s.view.node? k.id ≠ some n := fun n hn ↦ hnot (Or.inl ⟨n, hn⟩)
  exact {
    node?_new := by
      intro d hd
      rcases List.mem_append.mp hd with hd | hd
      · obtain ⟨dtype, hdtype, hnode⟩ := h.node?_new d hd
        refine ⟨dtype, hdtype, ?_⟩
        rw [hplaced.node?_of_new hnew (hother d hd), hnode, ContentKit.idsUnder_concat]
        rfl
      · obtain rfl := List.mem_singleton.mp hd
        refine ⟨type, htype, ?_⟩
        rw [hplaced.node?_self, ContentKit.idsUnder_concat,
          h.idsUnder_eq_nil ht.indexed.linked hnew, if_neg hself, Edit.childIds, node?_eq, hnew]
        rfl
    node?_old := by
      intro x hx
      rw [List.map_append, List.mem_append, not_or] at hx
      obtain ⟨hold, hx⟩ := hx
      have hne : x ≠ k.id := fun heq ↦ hx (List.mem_singleton.mpr heq)
      rw [hplaced.node?_of_new hnew hne, h.node?_old x hold, ContentKit.idsUnder_concat]
      cases s.view.node? x <;> simp [ContentNode.adopting_append]
    mem_roots_iff := by
      intro x
      rw [hplaced.mem_roots_iff, h.mem_roots_iff]
      refine exists_mem_concat_iff (fun hroot heq ↦ ?_) hother
      obtain ⟨n, hn⟩ := exists_node?_of_linkOf ((hs.linked.mem_roots_iff x).mp hroot)
      exact hfree n (heq ▸ hn)
    mem_nodesOf_iff := by
      intro u x
      rw [hplaced.mem_nodesOf_iff, h.mem_nodesOf_iff, hs.type_id_eq htype]
      refine exists_mem_concat_iff (P := fun d ↦ d.contentTypeId = u) (fun hlisted heq ↦ ?_) hother
      obtain ⟨_, hbound, -⟩ := Option.map_eq_some_iff.mp ((hs.lists u x).mp hlisted)
      obtain ⟨n, hn, -⟩ := Option.map_eq_some_iff.mp hbound
      exact hfree n (heq ▸ hn)
    typeTables_eq := hplaced.typeTables_eq.trans h.typeTables_eq }

/-! ### One kit after another -/

theorem Grown.fits_iff (h : s.Grown ks t) : Edit.Fits t.view [] k ↔ Edit.Fits s.view ks k := by
  have hparent : ∀ p, ((∃ n, t.view.node? p = some n) ∨ ∃ d ∈ [], ContentKit.id d = p) ↔
      (∃ n, s.view.node? p = some n) ∨ ∃ d ∈ ks, d.id = p := fun p ↦ by
    rw [h.exists_node?_iff, or_iff_left (by simp)]
  constructor
  · rintro ⟨hpayload, htyped, hup⟩
    exact ⟨hpayload, h.type?_eq ▸ htyped, fun p hp ↦ (hparent p).mp (hup p hp)⟩
  · rintro ⟨hpayload, htyped, hup⟩
    exact ⟨hpayload, h.type?_eq ▸ htyped, fun p hp ↦ (hparent p).mpr (hup p hp)⟩

theorem Grown.misfit_eq (h : s.Grown ks t) :
    SkipReason.misfit t.view k = SkipReason.misfit s.view k := by
  rw [SkipReason.misfit, h.type?_eq]
  rfl

/-- The next kit for a new node adds its node if it fits, and nothing if it does not. -/
theorem Grown.set (h : s.Grown ks t) (ht : t.Sound) (hs : s.Indexed)
    (hnew : t.view.node? k.id = none) (hself : k.parentId ≠ some k.id) :
    (Edit.Fits s.view ks k →
        s.Grown (ks ++ [k]) (Edit.set t k).1 ∧ (Edit.set t k).2 = .inserted) ∧
      (¬Edit.Fits s.view ks k →
        (Edit.set t k).1 = t ∧ (Edit.set t k).2 = .skipped (.misfit s.view k)) := by
  obtain ⟨hfits, hmisfit⟩ := first?_of_new ht.indexed.linked hnew hself
  rw [h.fits_iff] at hfits hmisfit
  obtain ⟨hskipped, happlied⟩ := ht.settled k
  refine ⟨fun hk ↦ ?_, fun hk ↦ ?_⟩
  · obtain ⟨type, htype, hplaced⟩ := happlied (hfits hk)
    exact ⟨h.concat ht hs hnew hself htype hplaced, hplaced.inserted_iff.mpr hnew⟩
  · obtain ⟨houtcome, hsame⟩ := hskipped _ (hmisfit hk)
    exact ⟨hsame, h.misfit_eq ▸ houtcome⟩

theorem Sound.setEach (h : s.Sound) (ks : List ContentKit) : (Edit.setEach s ks).1.Sound := by
  rw [Edit.setEach_fst]
  exact foldl_keeps (P := Sound) (fun _ k hs ↦ sound_invariant.set hs k) ks h

/-- Kits for different new nodes that are applied one after another add the nodes of those that fit
by their turn; the report counts the others under the reason for which they do not fit. -/
theorem Sound.grown_setEach (h : s.Sound) (hpicks : Edit.Picks s.view picked ks)
    (hnodup : (ks.map ContentKit.id).Nodup) (hnew : ∀ k ∈ ks, s.view.node? k.id = none)
    (hself : ∀ k ∈ ks, k.parentId ≠ some k.id) :
    s.Grown (ks.filter picked) (Edit.setEach s ks).1 ∧
      (Edit.setEach s ks).2 = LoadReport.on s.view picked ks := by
  induction ks using List.reverseRecOn with
  | nil => exact ⟨grown_nil s, rfl⟩
  | append_singleton ks k ih =>
    rw [List.map_append, List.nodup_append] at hnodup
    rw [List.forall_mem_append, List.forall_mem_singleton] at hnew hself
    obtain ⟨hgrown, hreport⟩ := ih hpicks.of_concat hnodup.1 hnew.1 hself.1
    have hfree : (Edit.setEach s ks).1.view.node? k.id = none := by
      refine Option.eq_none_iff_forall_ne_some.mpr fun n hn ↦ ?_
      obtain ⟨m, hm⟩ | ⟨d, hd, heq⟩ := hgrown.exists_node?_iff.mp ⟨n, hn⟩
      · rw [hnew.2] at hm
        contradiction
      · exact hnodup.2.2 _ (List.mem_map_of_mem (List.mem_of_mem_filter hd)) _
          (List.mem_singleton.mpr rfl) heq
    have hturn := hpicks ks k [] rfl
    obtain ⟨hfits, hmisfit⟩ := hgrown.set (h.setEach ks) h.indexed hfree hself.2
    rw [Edit.setEach_concat, hreport, List.filter_append]
    cases hk : picked k with
    | true =>
      have hfit := hturn.mp hk
      obtain ⟨hstate, houtcome⟩ := hfits hfit
      rw [houtcome, LoadReport.on_concat_of_picked hk hfit.typed, List.filter_cons_of_pos hk]
      exact ⟨hstate, rfl⟩
    | false =>
      obtain ⟨hstate, houtcome⟩ := hmisfit (mt hturn.mpr (by simp [hk]))
      rw [houtcome, LoadReport.on_concat_of_not_picked hk,
        List.filter_cons_of_neg (by simp [hk]), hstate, List.filter_nil, List.append_nil]
      exact ⟨hgrown, rfl⟩

/-- Kits for different new nodes that are applied level by level. -/
theorem Sound.grown_setOrdered (h : s.Sound)
    (hpicks : Edit.Picks s.view picked (ks.mergeSort Edit.levelLE))
    (hnodup : (ks.map ContentKit.id).Nodup) (hnew : ∀ k ∈ ks, s.view.node? k.id = none)
    (hself : ∀ k ∈ ks, k.parentId ≠ some k.id) :
    s.Grown ((ks.mergeSort Edit.levelLE).filter picked) (Edit.setOrdered s ks).1 ∧
      (Edit.setOrdered s ks).2 = LoadReport.on s.view picked ks := by
  have hperm := List.mergeSort_perm ks Edit.levelLE
  obtain ⟨hgrown, hreport⟩ := h.grown_setEach hpicks ((hperm.map _).nodup_iff.mpr hnodup)
    (fun k hk ↦ hnew k (hperm.mem_iff.mp hk)) fun k hk ↦ hself k (hperm.mem_iff.mp hk)
  exact ⟨hgrown, hreport.trans (LoadReport.on_perm hperm)⟩

end LiveContent

end VersionedContent
