import VersionedContent.Proofs.StoreRuns
import VersionedContent.Proofs.TypeIndexing

/-!
# Nodes and the definitions they are bound to

A node holds a copy of the definition of its content type. It is stale when another definition is
stored under the id of that one. A change of content types binds the nodes of the refreshed types
anew, but for those with a kit among the kits given, which are to be built from the kit. A kit that
is skipped builds nothing: its node keeps the definition of before. From a state without stale nodes
an operation leaves exactly these nodes stale (`LiveContent.Fresh.stale_run_iff`), and every stale
node of a run goes back to such an operation (`RecordedStore.Reachable.stale_iff_strands`).
-/

set_option autoImplicit false

namespace VersionedContent

/-! ### What decides which nodes are left behind -/

namespace Edit

variable {σ : Type} [LiveTables σ]

/-- The ids of the kits that are applied when kits are applied in the order in which they stand. -/
def appliedIds (s : σ) : List ContentKit → List ContentId
  | [] => []
  | k :: ks =>
    (if (set s k).2.isApplied then [k.id] else []) ++ appliedIds (set s k).1 ks

theorem isApplied_place (s : σ) (k : ContentKit) (type : ContentType) :
    (place s k type).2.isApplied = true := by
  unfold place
  split
  · rfl
  · dsimp only
    split_ifs <;> rfl

theorem mem_of_mem_appliedIds {s : σ} {ks : List ContentKit} {id : ContentId}
    (h : id ∈ appliedIds s ks) : id ∈ ks.map ContentKit.id := by
  induction ks generalizing s with
  | nil => exact absurd h List.not_mem_nil
  | cons k ks ih =>
    rcases List.mem_append.mp h with hfirst | hrest
    · split_ifs at hfirst
      · rw [List.mem_singleton.mp hfirst]
        exact List.mem_cons_self
      · exact absurd hfirst List.not_mem_nil
    · exact List.mem_cons_of_mem _ (ih hrest)

end Edit

namespace Retype

variable {σ : Type} [LiveTables σ]

/-- The definition that a list of them gives a type: the last one with its id. -/
def lastOf (types : List ContentType) (t : ContentTypeId) : Option ContentType :=
  (types.filter fun d ↦ decide (d.id = t)).getLast?

/-- The kits that are applied along with some refreshed types. -/
def usedKits (refreshed : List ContentType) (ks : List ContentKit) : List ContentKit :=
  ks.filter fun k ↦ decide (k.contentTypeId ∈ refreshed.map ContentType.id)

/-- The state that kits are applied to: some types removed, others stored. -/
def withTypes (s : σ) (removed : List ContentTypeId) (refreshed : List ContentType) : σ :=
  refreshed.foldl putType (removeTypes s removed).1

/-- The ids of the kits that a change of types applies: their nodes are built from them. -/
def rebuiltIds (s : σ) (removed : List ContentTypeId) (refreshed : List ContentType)
    (ks : List ContentKit) : List ContentId :=
  Edit.appliedIds (withTypes s removed refreshed) ((usedKits refreshed ks).mergeSort Edit.levelLE)

theorem updateTypes_fst (s : σ) (removed : List ContentTypeId) (refreshed : List ContentType)
    (ks : List ContentKit) :
    (updateTypes s removed refreshed ks).1 =
      (rebindAll (Edit.setOrdered (withTypes s removed refreshed) (usedKits refreshed ks)).1
        refreshed ((usedKits refreshed ks).map ContentKit.id)).1 := rfl

theorem lastOf_cons (d : ContentType) (types : List ContentType) (t : ContentTypeId) :
    lastOf (d :: types) t = (lastOf types t).or (if d.id = t then some d else none) := by
  unfold lastOf
  by_cases hid : d.id = t
  · rw [List.filter_cons_of_pos (by simpa using hid), List.getLast?_cons, if_pos hid]
    cases (types.filter fun d ↦ decide (d.id = t)).getLast? <;> rfl
  · rw [List.filter_cons_of_neg (by simpa using hid), if_neg hid, Option.or_none]

theorem id_of_lastOf {types : List ContentType} {t : ContentTypeId} {d : ContentType}
    (h : lastOf types t = some d) : d.id = t := by
  have hmem := List.mem_of_getLast? h
  simpa using (List.mem_filter.mp hmem).2

end Retype

/-- Whether an operation leaves a node behind: the definition of its type is replaced by another
one, kits name the node, and every kit that does is skipped. -/
def WriterCall.Strands (s : LiveContent) (id : ContentId) : WriterCall → Prop
  | .updateTypes removed refreshed ks =>
    ∃ before after, (Retype.removeTypes s removed).1.view.bindingOf id = some before ∧
      Retype.lastOf refreshed before.id = some after ∧ after ≠ before ∧
      id ∈ (Retype.usedKits refreshed ks).map ContentKit.id ∧
      id ∉ Retype.rebuiltIds s removed refreshed ks
  | _ => False

namespace LiveContent

/-- A node bound to another definition than the one stored under the id of its type. -/
def Stale (s : LiveContent) (id : ContentId) : Prop :=
  ∃ d, s.view.bindingOf id = some d ∧ s.view.type? d.id ≠ some d

/-- No node is stale. -/
def Fresh (s : LiveContent) : Prop := ∀ id, ¬s.Stale id

variable {s : LiveContent}

theorem Fresh.type?_eq (h : s.Fresh) {id : ContentId} {d : ContentType}
    (hd : s.view.bindingOf id = some d) : s.view.type? d.id = some d := by
  by_contra hne
  exact h id ⟨d, hd, hne⟩

theorem fresh_of_type?_eq
    (h : ∀ id d, s.view.bindingOf id = some d → s.view.type? d.id = some d) : s.Fresh := by
  rintro id ⟨d, hd, hne⟩
  exact hne (h id d hd)

/-- Nodes that are bound as before to definitions that are stored as before stay as they are. -/
theorem Fresh.congr (h : s.Fresh) {u : LiveContent} (htypes : u.view.type? = s.view.type?)
    (hbindings : ∀ id, u.view.bindingOf id = none ∨ u.view.bindingOf id = s.view.bindingOf id) :
    u.Fresh := by
  refine fresh_of_type?_eq fun id d hd ↦ ?_
  rcases hbindings id with hgone | hsame
  · rw [hgone] at hd
    contradiction
  · rw [htypes]
    exact h.type?_eq (hsame.symm.trans hd)

/-! ### Kits -/

/-- A kit that is applied binds its node to the stored definition of its type; one that is skipped
leaves the state as it is. -/
theorem set_cases (s : LiveContent) (k : ContentKit) :
    (Edit.set s k).2.isApplied = false ∧ (Edit.set s k).1 = s ∨
      (Edit.set s k).2.isApplied = true ∧ ∃ d, s.view.type? k.contentTypeId = some d ∧
        ∀ x, (Edit.set s k).1.view.bindingOf x =
          if x = k.id then some d else s.view.bindingOf x := by
  unfold Edit.set
  cases hvet : Edit.vet s k with
  | error reason => exact Or.inl ⟨rfl, rfl⟩
  | ok type =>
    exact Or.inr ⟨Edit.isApplied_place s k type, type, (Edit.of_vet_eq_ok hvet).2.1,
      ContentView.bindingOf_place s k type⟩

/-- After kits have been applied, the nodes of applied ones are bound to stored definitions and the
others as before. -/
theorem Indexed.bindingOf_foldl_set (h : s.Indexed) (ks : List ContentKit) (x : ContentId) :
    (x ∈ Edit.appliedIds s ks →
      ∃ d, (ks.foldl (fun s k ↦ (Edit.set s k).1) s).view.bindingOf x = some d ∧
        s.view.type? d.id = some d) ∧
    (x ∉ Edit.appliedIds s ks →
      (ks.foldl (fun s k ↦ (Edit.set s k).1) s).view.bindingOf x = s.view.bindingOf x) := by
  induction ks generalizing s with
  | nil => exact ⟨fun hx ↦ absurd hx List.not_mem_nil, fun _ ↦ rfl⟩
  | cons k ks ih =>
    obtain ⟨happlied, hskipped⟩ := ih (h.set k)
    rw [type?_of_typeTables (typeTables_set s k)] at happlied
    simp only [List.foldl_cons, Edit.appliedIds, List.mem_append]
    rcases set_cases s k with ⟨hskip, hsame⟩ | ⟨happly, d, hd, hbinding⟩
    · simp only [hskip, Bool.false_eq_true, if_false, List.not_mem_nil, false_or]
      refine ⟨happlied, fun hx ↦ ?_⟩
      rw [hskipped hx, hsame]
    · simp only [happly, if_true, List.mem_singleton]
      have hstored : s.view.type? d.id = some d := (h.type_id_eq hd).symm ▸ hd
      by_cases hlater : x ∈ Edit.appliedIds (Edit.set s k).1 ks
      · exact ⟨fun _ ↦ happlied hlater, fun hx ↦ absurd (Or.inr hlater) hx⟩
      · refine ⟨fun hx ↦ ⟨d, ?_, hstored⟩, fun hx ↦ ?_⟩
        · have heq : x = k.id := hx.resolve_right hlater
          rw [hskipped hlater, hbinding, if_pos heq]
        · have hne : x ≠ k.id := fun heq ↦ hx (Or.inl heq)
          rw [hskipped hlater, hbinding, if_neg hne]

theorem typeTables_setOrdered (s : LiveContent) (ks : List ContentKit) :
    (Edit.setOrdered s ks).1.typeTables = s.typeTables := by
  rw [Edit.setOrdered, Edit.setEach_fst]
  exact foldl_unchanged typeTables typeTables_set _ s

theorem Fresh.setOrdered (h : s.Fresh) (hindexed : s.Indexed) (ks : List ContentKit) :
    (Edit.setOrdered s ks).1.Fresh := by
  refine fresh_of_type?_eq fun id d hd ↦ ?_
  rw [type?_of_typeTables (typeTables_setOrdered s ks)]
  rw [Edit.setOrdered, Edit.setEach_fst] at hd
  obtain ⟨happlied, hskipped⟩ := hindexed.bindingOf_foldl_set (ks.mergeSort Edit.levelLE) id
  by_cases hid : id ∈ Edit.appliedIds s (ks.mergeSort Edit.levelLE)
  · obtain ⟨e, he, hstored⟩ := happlied hid
    rw [hd] at he
    exact Option.some.inj he ▸ hstored
  · exact h.type?_eq ((hskipped hid).symm.trans hd)

theorem Fresh.removeSubtree (hfresh : s.Fresh) (h : s.Indexed) (id : ContentId) :
    (Edit.removeSubtree s id).1.Fresh := by
  refine hfresh.congr (type?_of_typeTables (typeTables_removeSubtree s id)) fun x ↦ ?_
  by_cases hbelow : s.view.Below id x
  · exact Or.inl (h.linked.bindingOf_removeSubtree_of_below hbelow)
  · exact Or.inr (h.linked.bindingOf_removeSubtree hbelow)

theorem Fresh.clearTree (hfresh : s.Fresh) :
    (LiveTables.setIndex (LiveTables.clearTree s) TypeIndex.empty).Fresh :=
  hfresh.congr rfl fun _ ↦ Or.inl (congrArg (Option.map _) Std.ExtTreeMap.getElem?_empty)

/-! ### Changes of types -/

theorem Indexed.fresh_removeType (h : s.Indexed) (hfresh : s.Fresh) (t : ContentTypeId) :
    (Retype.removeType s t).1.Fresh := by
  obtain ⟨hnodes, -, -, htypes⟩ := dropType_spec (s.withoutNodesOf t) t
  rw [type?_of_typeTables (typeTables_withoutNodesOf s t)] at htypes
  rw [removeType_fst]
  refine fresh_of_type?_eq fun id d hd ↦ ?_
  rw [ContentView.bindingOf, ContentView.node?, hnodes] at hd
  change (s.withoutNodesOf t).view.bindingOf id = some d at hd
  rcases h.bindingOf_withoutNodesOf t id with hgone | ⟨hne, hsame⟩
  · rw [hgone] at hd
    contradiction
  · have hbound : s.view.bindingOf id = some d := hsame.symm.trans hd
    have hother : d.id ≠ t := fun heq ↦ hne (by rw [ContentView.typeOf, hbound, ← heq]; rfl)
    rw [htypes, Function.update_of_ne hother, hfresh.type?_eq hbound]

theorem Indexed.fresh_removeTypes (h : s.Indexed) (hfresh : s.Fresh)
    (ids : List ContentTypeId) : (Retype.removeTypes s ids).1.Fresh := by
  rw [Retype.removeTypes_fst]
  exact (foldl_keeps (P := fun u : LiveContent ↦ u.Indexed ∧ u.Fresh)
    (fun _ t hu ↦ ⟨hu.1.removeType t, hu.1.fresh_removeType hu.2 t⟩) ids ⟨h, hfresh⟩).2

theorem bindingOf_foldl_putType (s : LiveContent) (types : List ContentType) (x : ContentId) :
    (types.foldl Retype.putType s).view.bindingOf x = s.view.bindingOf x := by
  refine foldl_unchanged (fun u : LiveContent ↦ u.view.bindingOf x) (fun u d ↦ ?_) types s
  simp only [ContentView.bindingOf, ContentView.node?, (putType_spec u d).1]

/-- Of several definitions with one id the last one is stored in the end. -/
theorem type?_foldl_putType (s : LiveContent) (types : List ContentType) (t : ContentTypeId) :
    (types.foldl Retype.putType s).view.type? t = (Retype.lastOf types t).or (s.view.type? t) := by
  induction types generalizing s with
  | nil => rfl
  | cons d types ih =>
    rw [List.foldl_cons, ih, (putType_spec s d).2.2.2, Function.update_apply, Retype.lastOf_cons]
    by_cases hid : t = d.id
    · rw [if_pos hid, if_pos hid.symm, Option.or_assoc, Option.some_or]
    · rw [if_neg hid, if_neg (Ne.symm hid), Option.or_none]

theorem typeTables_rebindAll (s : LiveContent) (types : List ContentType)
    (except : List ContentId) : (Retype.rebindAll s types except).1.typeTables = s.typeTables := by
  rw [Retype.rebindAll_fst]
  exact foldl_unchanged typeTables (fun u d ↦ typeTables_rebindNodes u d except) types s

/-- Every node that is not excepted ends up bound to the last definition of its type, if there is
one among those given. -/
theorem Indexed.bindingOf_rebindAll (h : s.Indexed) (types : List ContentType)
    (except : List ContentId) (x : ContentId) :
    (Retype.rebindAll s types except).1.view.bindingOf x =
      if x ∈ except then s.view.bindingOf x
      else (s.view.bindingOf x).map fun d ↦ (Retype.lastOf types d.id).getD d := by
  rw [Retype.rebindAll_fst]
  induction types generalizing s with
  | nil =>
    have hid : (fun d : ContentType ↦ (Retype.lastOf [] d.id).getD d) = id := rfl
    simp [hid]
  | cons e types ih =>
    rw [List.foldl_cons, ih (h.rebindNodes e except), h.bindingOf_rebindNodes]
    by_cases hx : x ∈ except
    · simp [hx]
    · simp only [hx, not_false_eq_true, and_true, if_false, Retype.lastOf_cons, ContentView.typeOf]
      cases s.view.bindingOf x with
      | none => rfl
      | some d =>
        simp only [Option.map_some, Option.some.injEq]
        by_cases hid : d.id = e.id
        · rw [if_pos hid, if_pos hid.symm, hid]
          cases hlast : Retype.lastOf types e.id <;> simp [hlast]
        · rw [if_neg hid, if_neg (Ne.symm hid), Option.or_none]
          rfl

/-- The definitions stored after a change of types. -/
theorem type?_updateTypes (s : LiveContent) (removed : List ContentTypeId)
    (refreshed : List ContentType) (ks : List ContentKit) (t : ContentTypeId) :
    (Retype.updateTypes s removed refreshed ks).1.view.type? t =
      (Retype.lastOf refreshed t).or ((Retype.removeTypes s removed).1.view.type? t) := by
  rw [Retype.updateTypes_fst, type?_of_typeTables (typeTables_rebindAll _ _ _),
    type?_of_typeTables (typeTables_setOrdered _ _), Retype.withTypes, type?_foldl_putType]

section UpdateTypes

variable (h : s.Indexed) (removed : List ContentTypeId) (refreshed : List ContentType)
  (ks : List ContentKit) {id : ContentId}

theorem mem_usedKits_of_mem_rebuiltIds (hid : id ∈ Retype.rebuiltIds s removed refreshed ks) :
    id ∈ (Retype.usedKits refreshed ks).map ContentKit.id := by
  have hsorted := ((Retype.usedKits refreshed ks).mergeSort_perm Edit.levelLE).map ContentKit.id
  exact hsorted.mem_iff.mp (Edit.mem_of_mem_appliedIds hid)

include h

theorem Indexed.withTypes_indexed : (Retype.withTypes s removed refreshed).Indexed :=
  indexed_invariant.putTypes (indexed_invariant.removeTypes h removed) refreshed

theorem Indexed.bindingOf_updateTypes :
    (Retype.updateTypes s removed refreshed ks).1.view.bindingOf id =
      if id ∈ (Retype.usedKits refreshed ks).map ContentKit.id then
        (Edit.setOrdered (Retype.withTypes s removed refreshed)
          (Retype.usedKits refreshed ks)).1.view.bindingOf id
      else ((Edit.setOrdered (Retype.withTypes s removed refreshed)
          (Retype.usedKits refreshed ks)).1.view.bindingOf id).map fun d ↦
        (Retype.lastOf refreshed d.id).getD d := by
  have htyped := h.withTypes_indexed removed refreshed
  exact (indexed_invariant.setOrdered htyped (Retype.usedKits refreshed ks)).bindingOf_rebindAll
    refreshed _ id

/-- A node with a kit that is applied ends up bound to a stored definition. -/
theorem Indexed.bindingOf_updateTypes_of_applied
    (hid : id ∈ Retype.rebuiltIds s removed refreshed ks) :
    ∃ d, (Retype.updateTypes s removed refreshed ks).1.view.bindingOf id = some d ∧
      (Retype.updateTypes s removed refreshed ks).1.view.type? d.id = some d := by
  have htyped := h.withTypes_indexed removed refreshed
  obtain ⟨d, hd, htype⟩ := (htyped.bindingOf_foldl_set _ id).1 hid
  refine ⟨d, ?_, ?_⟩
  · rw [h.bindingOf_updateTypes, if_pos (mem_usedKits_of_mem_rebuiltIds removed refreshed ks hid),
      Edit.setOrdered, Edit.setEach_fst, hd]
  · rw [type?_updateTypes, ← type?_foldl_putType]
    exact htype

/-- A node whose kits are all skipped is bound to what it was bound to before. -/
theorem Indexed.bindingOf_updateTypes_of_skipped
    (hid : id ∉ Retype.rebuiltIds s removed refreshed ks)
    (hnamed : id ∈ (Retype.usedKits refreshed ks).map ContentKit.id) :
    (Retype.updateTypes s removed refreshed ks).1.view.bindingOf id =
      (Retype.removeTypes s removed).1.view.bindingOf id := by
  have htyped := h.withTypes_indexed removed refreshed
  have hsame := (htyped.bindingOf_foldl_set _ id).2 hid
  rw [h.bindingOf_updateTypes, if_pos hnamed, Edit.setOrdered, Edit.setEach_fst, hsame]
  exact bindingOf_foldl_putType _ refreshed id

/-- A node without a kit is bound to the new definition of its type, if there is one. -/
theorem Indexed.bindingOf_updateTypes_of_not_named
    (hnamed : id ∉ (Retype.usedKits refreshed ks).map ContentKit.id) :
    (Retype.updateTypes s removed refreshed ks).1.view.bindingOf id =
      ((Retype.removeTypes s removed).1.view.bindingOf id).map fun d ↦
        (Retype.lastOf refreshed d.id).getD d := by
  have htyped := h.withTypes_indexed removed refreshed
  have hid : id ∉ Retype.rebuiltIds s removed refreshed ks :=
    fun hmem ↦ hnamed (mem_usedKits_of_mem_rebuiltIds removed refreshed ks hmem)
  have hsame := (htyped.bindingOf_foldl_set _ id).2 hid
  have hbefore : (Retype.withTypes s removed refreshed).view.bindingOf id =
      (Retype.removeTypes s removed).1.view.bindingOf id := bindingOf_foldl_putType _ refreshed id
  rw [h.bindingOf_updateTypes, if_neg hnamed, Edit.setOrdered, Edit.setEach_fst, hsame, hbefore]

/-- A change of types leaves those nodes stale that it strands. -/
theorem Fresh.stale_updateTypes_iff (hfresh : s.Fresh) (id : ContentId) :
    (Retype.updateTypes s removed refreshed ks).1.Stale id ↔
      (WriterCall.updateTypes removed refreshed ks).Strands s id := by
  have hkept := h.fresh_removeTypes hfresh removed
  have hstored := type?_updateTypes s removed refreshed ks
  by_cases hnamed : id ∈ (Retype.usedKits refreshed ks).map ContentKit.id
  · by_cases happlied : id ∈ Retype.rebuiltIds s removed refreshed ks
    · obtain ⟨d, hd, htype⟩ := h.bindingOf_updateTypes_of_applied removed refreshed ks happlied
      apply iff_of_false
      · rintro ⟨e, he, hne⟩
        rw [hd] at he
        obtain rfl := Option.some.inj he
        exact hne htype
      · rintro ⟨-, -, -, -, -, -, hskipped⟩
        exact hskipped happlied
    · have hbinding := h.bindingOf_updateTypes_of_skipped removed refreshed ks happlied hnamed
      constructor
      · rintro ⟨d, hd, hne⟩
        rw [hbinding] at hd
        rw [hstored, hkept.type?_eq hd] at hne
        cases hlast : Retype.lastOf refreshed d.id with
        | none => simp [hlast] at hne
        | some e => exact ⟨d, e, hd, hlast, by simpa [hlast] using hne, hnamed, happlied⟩
      · rintro ⟨d, e, hd, hlast, hne, -, -⟩
        refine ⟨d, hbinding.trans hd, ?_⟩
        rw [hstored, hlast]
        simpa using hne
  · have hbinding := h.bindingOf_updateTypes_of_not_named removed refreshed ks hnamed
    apply iff_of_false
    · rintro ⟨d, hd, hne⟩
      rw [hbinding] at hd
      obtain ⟨c, hc, rfl⟩ := Option.map_eq_some_iff.mp hd
      cases hlast : Retype.lastOf refreshed c.id with
      | none => simp [hlast, hstored, hkept.type?_eq hc] at hne
      | some e => simp [hlast, hstored, Retype.id_of_lastOf hlast] at hne
    · rintro ⟨-, -, -, -, -, hmem, -⟩
      exact hnamed hmem

end UpdateTypes

/-- From a state without stale nodes an operation leaves exactly those nodes stale that it strands.
Assumes: the index is exact. -/
theorem Fresh.stale_run_iff (hfresh : s.Fresh) (h : s.Indexed) (call : WriterCall)
    (id : ContentId) : (call.run s).1.Stale id ↔ call.Strands s id := by
  cases call with
  | set k =>
    refine iff_of_false ?_ not_false
    have hset : (Edit.set s k).1.Fresh := by
      have hone := hfresh.setOrdered h [k]
      rwa [Edit.setOrdered, Edit.setEach_fst, List.mergeSort_singleton] at hone
    exact hset id
  | clear top =>
    refine iff_of_false ?_ not_false
    exact hfresh.removeSubtree h top id
  | setAll ks =>
    refine iff_of_false ?_ not_false
    exact (hfresh.clearTree).setOrdered (indexed_invariant.clearTree h) ks id
  | setBranch root ks =>
    refine iff_of_false ?_ not_false
    exact (hfresh.removeSubtree h root).setOrdered (h.removeSubtree root) ks id
  | setAllTypes types =>
    refine (Fresh.stale_updateTypes_iff h _ types [] hfresh id).trans (iff_of_false ?_ not_false)
    rintro ⟨_, _, _, _, _, hnamed, _⟩
    exact absurd hnamed List.not_mem_nil
  | updateTypes removed refreshed ks =>
    exact Fresh.stale_updateTypes_iff h removed refreshed ks hfresh id
  | updateDataTypes ids resolve r =>
    refine (Fresh.stale_updateTypes_iff h [] _ [] hfresh id).trans (iff_of_false ?_ not_false)
    rintro ⟨_, _, _, _, _, hnamed, _⟩
    exact absurd hnamed List.not_mem_nil

theorem fresh_empty : LiveContent.empty.Fresh := by
  rintro id ⟨d, hd, -⟩
  have hnone : LiveContent.empty.view.bindingOf id = none :=
    congrArg (Option.map _) Std.ExtTreeMap.getElem?_empty
  rw [hnone] at hd
  contradiction

end LiveContent

/-! ### Stale nodes along a run -/

namespace RecordedStore

variable {r : RecordedStore}

theorem Reachable.indexed {kind : ItemKind} {options : StoreOptions}
    (hr : Reachable kind options r) : r.store.live.Indexed :=
  (hr.keeps LiveContent.indexed_invariant LiveContent.indexed_empty).1

/-- From a state without stale nodes an operation leaves exactly those nodes stale that it strands.
Assumes: a state of a run. -/
theorem Reachable.stale_perform_iff {kind : ItemKind} {options : StoreOptions}
    (hr : Reachable kind options r) (hfresh : r.store.live.Fresh) (call : WriterCall)
    (id : ContentId) :
    (r.store.perform call).1.live.Stale id ↔ call.Strands r.store.live id := by
  rw [(ContentStore.perform_follows hr.faithful.headsLE call).2.1]
  exact hfresh.stale_run_iff hr.indexed call id

/-- A step that strands no node leaves no stale node behind where there was none. -/
theorem Reachable.fresh_step {kind : ItemKind} {options : StoreOptions}
    (hr : Reachable kind options r) (hfresh : r.store.live.Fresh) {u : RecordedStore}
    (hstep : Step r u) :
    u.store.live.Fresh ∨ ∃ call id, r.clock.writing = true ∧ call.Strands r.store.live id ∧
      u = { r with store := (r.store.perform call).1 } := by
  rcases hr.faithful.live_step hstep with hsame | ⟨call, hopen, rfl⟩
  · exact Or.inl (hsame ▸ hfresh)
  · by_cases hstrands : ∃ id, call.Strands r.store.live id
    · obtain ⟨id, hid⟩ := hstrands
      exact Or.inr ⟨call, id, hopen, hid, rfl⟩
    · refine Or.inl fun id hstale ↦ hstrands ⟨id, ?_⟩
      exact (hr.stale_perform_iff hfresh call id).mp hstale

/-- Exactly the operations that strand a node make nodes stale. In a state of a run without stale
nodes an operation leaves those nodes stale that it strands and no others; and a run that leads to a
state with stale nodes has, in a state without any, an operation that strands one. -/
theorem Reachable.stale_iff_strands {kind : ItemKind} {options : StoreOptions}
    (hr : Reachable kind options r) :
    (r.store.live.Fresh → ∀ call id,
      (r.store.perform call).1.live.Stale id ↔ call.Strands r.store.live id) ∧
    (r.store.live.Fresh ∨ ∃ q call id, Reachable kind options q ∧ q.store.live.Fresh ∧
      q.clock.writing = true ∧ call.Strands q.store.live id ∧
        Steps { q with store := (q.store.perform call).1 } r) := by
  refine ⟨hr.stale_perform_iff, ?_⟩
  obtain ⟨s, hs, hsteps⟩ := hr
  induction hsteps with
  | refl =>
    refine Or.inl ?_
    rw [ContentStore.live_eq_of_create hs]
    exact LiveContent.fresh_empty
  | tail hbefore hstep ih =>
    rcases ih with hfresh | ⟨q, call, id, hq, hfresh, hopen, hstrands, hafter⟩
    · have hmiddle : Reachable kind options _ := ⟨s, hs, hbefore⟩
      rcases hmiddle.fresh_step hfresh hstep with hkept | ⟨call, id, hopen, hstrands, rfl⟩
      · exact Or.inl hkept
      · exact Or.inr ⟨_, call, id, hmiddle, hfresh, hopen, hstrands, .refl⟩
    · exact Or.inr ⟨q, call, id, hq, hfresh, hopen, hstrands, hafter.tail hstep⟩

/-- The type of the page under another short name. -/
def articleType : ContentType := ContentType.new ⟨1⟩ "article" .content

/-- A change of the type of the page, with a kit for the page that has no payload. -/
def renameType : WriterCall :=
  .updateTypes [] [articleType] [ContentKit.new ⟨1⟩ ⟨1⟩ default default]

/-- The pinned page, with a section open. -/
def pageWriting : RecordedStore := { pagePinned with store := pagePinned.store.openSection }

/-- The page after the change of its type. -/
def pageStranded : RecordedStore :=
  { pageWriting with store := (pageWriting.store.perform renameType).1 }

theorem reachable_pageWriting : Reachable .content StoreOptions.default pageWriting := by
  obtain ⟨s, hs, hsteps⟩ := reachable_pagePinned
  exact ⟨s, hs, hsteps.tail (.openSection rfl)⟩

/-- The page keeps the definition of before, while another one is stored for its type: nodes are not
always bound to the stored definitions. -/
theorem stale_pageStranded :
    Reachable .content StoreOptions.default pageStranded ∧
      pageStranded.store.live.view.bindingOf ⟨1⟩ = some pageType ∧
      pageStranded.store.live.view.type? ⟨1⟩ = some articleType ∧
      ¬∀ r, Reachable .content StoreOptions.default r → r.store.live.Fresh := by
  have hr : Reachable .content StoreOptions.default pageStranded := by
    obtain ⟨s, hs, hsteps⟩ := reachable_pageWriting
    exact ⟨s, hs, hsteps.tail (.perform rfl renameType)⟩
  have hbinding : pageStranded.store.live.view.bindingOf ⟨1⟩ = some pageType := by decide +kernel
  have htype : pageStranded.store.live.view.type? ⟨1⟩ = some articleType := by decide +kernel
  refine ⟨hr, hbinding, htype, fun hall ↦ hall _ hr ⟨1⟩ ⟨pageType, hbinding, ?_⟩⟩
  show pageStranded.store.live.view.type? ⟨1⟩ ≠ some pageType
  rw [htype]
  decide

/-- The change of its type strands the page, which was not stale before and is stale after it. -/
theorem Reachable.stale_iff_strands_pageStranded :
    pageWriting.store.live.Fresh ∧ renameType.Strands pageWriting.store.live ⟨1⟩ ∧
      pageStranded.store.live.Stale ⟨1⟩ := by
  have hnodes : pageWriting.store.live.view.nodes =
      (∅ : Std.ExtTreeMap ContentId ContentNode).insert ⟨1⟩ (.ofKit page pageType []) := by
    decide +kernel
  have hfresh : pageWriting.store.live.Fresh := by
    refine LiveContent.fresh_of_type?_eq fun id d hd ↦ ?_
    rw [ContentView.bindingOf, ContentView.node?, hnodes, Std.ExtTreeMap.getElem?_insert] at hd
    split_ifs at hd
    · obtain rfl := Option.some.inj hd
      decide +kernel
    · simp at hd
  have hstrands : renameType.Strands pageWriting.store.live ⟨1⟩ :=
    ⟨pageType, articleType, by decide +kernel, by decide +kernel, by decide, by decide +kernel,
      by decide +kernel⟩
  exact ⟨hfresh, hstrands,
    (reachable_pageWriting.stale_iff_strands.1 hfresh renameType ⟨1⟩).mpr hstrands⟩

end RecordedStore

end VersionedContent
