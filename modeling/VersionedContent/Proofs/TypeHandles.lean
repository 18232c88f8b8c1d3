import VersionedContent.Proofs.TreeListings
import VersionedContent.Proofs.TypeBinding

/-!
# Content types under their short names

Definitions are stored twice, by id and by short name (`handle`). What a short name resolves to is
always stored under its id and has that name (`LiveContent.Resolves`). The converse fails: storing a
definition gives up the name that its type had before, also when a definition further up in the same
list has taken that name over. This is the only way to lose one. A change of types that gives every
type one definition and every defined type a name of its own mislays exactly the definitions whose
names are given up further down in its list (`WriterCall.Mislays`); it resolves the name of every
other one, unless that was mislaid before and is not given anew
(`RecordedStore.ProperlyReachable.typeNamed?_perform_iff`).
-/

set_option autoImplicit false

namespace VersionedContent

/-! ### What a change of types is meant to leave -/

namespace Retype

/-- The definitions that stand further down in a list than one of them. -/
def behind (d : ContentType) : List ContentType → List ContentType
  | [] => []
  | e :: rest => if e = d then rest else behind d rest

theorem behind_subset (d : ContentType) (types : List ContentType) : behind d types ⊆ types := by
  induction types with
  | nil => exact List.Subset.refl _
  | cons e rest ih =>
    unfold behind
    split_ifs
    · exact List.subset_cons_self e rest
    · exact List.Subset.trans ih (List.subset_cons_self e rest)

theorem mem_of_mem_behind {d e : ContentType} {types : List ContentType}
    (he : e ∈ behind d types) : d ∈ types := by
  induction types with
  | nil => exact absurd he List.not_mem_nil
  | cons x rest ih =>
    unfold behind at he
    split_ifs at he with heq
    · exact heq ▸ List.mem_cons_self
    · exact List.mem_cons_of_mem x (ih he)

theorem not_mem_behind_self {d : ContentType} {types : List ContentType} (h : types.Nodup) :
    d ∉ behind d types := by
  induction types with
  | nil => exact List.not_mem_nil
  | cons e rest ih =>
    obtain ⟨hfirst, hrest⟩ := List.nodup_cons.mp h
    unfold behind
    split_ifs with heq
    · exact heq ▸ hfirst
    · exact ih hrest

/-- Where no id is given twice, the last definition with an id is the one with it. -/
theorem lastOf_eq_some_iff {types : List ContentType} (h : (types.map ContentType.id).Nodup)
    {t : ContentTypeId} {d : ContentType} :
    lastOf types t = some d ↔ d ∈ types ∧ d.id = t := by
  refine ⟨fun hlast ↦ ?_, ?_⟩
  · exact ⟨(List.mem_filter.mp (List.mem_of_getLast? hlast)).1, id_of_lastOf hlast⟩
  · rintro ⟨hmem, rfl⟩
    cases hlast : lastOf types d.id with
    | none =>
      have hfilter := List.getLast?_eq_none_iff.mp hlast
      have hin : d ∈ types.filter fun e ↦ decide (e.id = d.id) :=
        List.mem_filter.mpr ⟨hmem, by simp⟩
      simp [hfilter] at hin
    | some e =>
      have he : e ∈ types := (List.mem_filter.mp (List.mem_of_getLast? hlast)).1
      exact congrArg some (List.inj_on_of_nodup_map h he hmem (id_of_lastOf hlast))

end Retype

namespace WriterCall

variable (s : LiveContent)

/-- The ids of the types that an operation removes. -/
def removedTypes : WriterCall → List ContentTypeId
  | .setAllTypes types => Retype.superseded s types
  | .updateTypes removed _ _ => removed
  | _ => []

/-- The definitions that an operation stores, in this order. -/
def refreshedTypes : WriterCall → List ContentType
  | .setAllTypes types => types
  | .updateTypes _ refreshed _ => refreshed
  | .updateDataTypes ids resolve r =>
    (Retype.resolveEach resolve r (Retype.affectedTypes s ids)).2
  | _ => []

/-- The definitions that an operation is meant to leave stored: the given ones, and those whose
types are neither removed nor given a definition. -/
def intendedTypes (call : WriterCall) : List ContentType :=
  (s.view.allTypes.filter fun d ↦ decide (d.id ∉ call.removedTypes s ∧
    d.id ∉ (call.refreshedTypes s).map ContentType.id)) ++ call.refreshedTypes s

/-- An operation that gives no type two definitions and is meant to leave no two types one name. -/
def Proper (call : WriterCall) : Prop :=
  ((call.refreshedTypes s).map ContentType.id).Nodup ∧
    ((call.intendedTypes s).map ContentType.handle).Nodup

instance (call : WriterCall) : Decidable (call.Proper s) := inferInstanceAs (Decidable (_ ∧ _))

end WriterCall

namespace LiveContent

/-- The short name of the stored definition of a type. -/
def handleOf (s : LiveContent) (t : ContentTypeId) : Option String :=
  (s.view.type? t).map ContentType.handle

/-- A stored definition that its short name does not resolve to. -/
def Mislaid (s : LiveContent) (d : ContentType) : Prop :=
  s.view.type? d.id = some d ∧ s.view.typeNamed? d.handle ≠ some d

instance (s : LiveContent) (d : ContentType) : Decidable (s.Mislaid d) :=
  inferInstanceAs (Decidable (_ ∧ _))

/-- The two tables of types agree: a short name resolves to a definition exactly when that is stored
under its id and has the name. -/
def HandlesAgree (s : LiveContent) : Prop :=
  ∀ handle d, s.view.typeNamed? handle = some d ↔ s.view.type? d.id = some d ∧ d.handle = handle

/-- What a short name resolves to is stored under its id and has that name. -/
def Resolves (s : LiveContent) : Prop :=
  ∀ handle d, s.view.typeNamed? handle = some d → s.view.type? d.id = some d ∧ d.handle = handle

/-- No two types have one short name. -/
def HandlesDistinct (s : LiveContent) : Prop :=
  ∀ d e, s.view.type? d.id = some d → s.view.type? e.id = some e → d.handle = e.handle → d = e

end LiveContent

/-- An operation that gives up the short name of a definition it has stored: the definition of
another type stands further down in its list, and that type still had the name. -/
def WriterCall.Mislays (s : LiveContent) (call : WriterCall) (d : ContentType) : Prop :=
  ∃ e ∈ Retype.behind d (call.refreshedTypes s),
    e.id ∉ call.removedTypes s ∧ s.handleOf e.id = some d.handle

instance (s : LiveContent) (call : WriterCall) (d : ContentType) : Decidable (call.Mislays s d) :=
  inferInstanceAs (Decidable (∃ e ∈ Retype.behind d (call.refreshedTypes s), _))

namespace LiveContent

variable {s : LiveContent} {handle : String} {d : ContentType}

/-! ### Look-ups by short name -/

theorem typeNamed?_empty (handle : String) : LiveContent.empty.view.typeNamed? handle = none :=
  Std.ExtTreeMap.getElem?_empty

theorem typeNamed?_setHandle (s : LiveContent) (handle : String) (d : ContentType) :
    (LiveTables.setHandle s handle d).view.typeNamed? =
      Function.update s.view.typeNamed? handle (some d) := by
  funext x
  simp only [LiveTables.setHandle, modify, ContentView.typeNamed?,
    Std.ExtTreeMap.getElem?_insert, Function.update_apply, Std.LawfulEqOrd.compare_eq_iff_eq,
    eq_comm (a := x)]

theorem typeNamed?_clearHandle (s : LiveContent) (handle : String) :
    (LiveTables.clearHandle s handle).view.typeNamed? =
      Function.update s.view.typeNamed? handle none := by
  funext x
  simp only [LiveTables.clearHandle, modify, ContentView.typeNamed?,
    Std.ExtTreeMap.getElem?_erase, Function.update_apply, Std.LawfulEqOrd.compare_eq_iff_eq,
    eq_comm (a := x)]

theorem typeNamed?_of_typeTables {s t : LiveContent} (h : t.typeTables = s.typeTables) :
    t.view.typeNamed? = s.view.typeNamed? := by
  funext handle
  simp only [ContentView.typeNamed?,
    show t.view.typesByHandle = s.view.typesByHandle from congrArg Prod.snd h]

theorem handleOf_of_typeTables {s t : LiveContent} (h : t.typeTables = s.typeTables) :
    t.handleOf = s.handleOf := by
  funext id
  rw [handleOf, type?_of_typeTables h, handleOf]

/-- Storing a definition takes its name and gives up the one that its type had. -/
theorem typeNamed?_putType (s : LiveContent) (d : ContentType) (handle : String) :
    (Retype.putType s d).view.typeNamed? handle =
      if handle = d.handle then some d
      else if s.handleOf d.id = some handle then none else s.view.typeNamed? handle := by
  unfold Retype.putType handleOf
  dsimp only
  rw [typeNamed?_setHandle, Function.update_apply, type?_eq]
  refine ite_congr rfl (fun _ ↦ rfl) fun hother ↦ ?_
  cases s.view.type? d.id with
  | none => rfl
  | some previous =>
    dsimp only
    split_ifs with hsame hgiven hgiven
    · exact absurd ((Option.some.inj hgiven).symm.trans hsame) hother
    · rfl
    · change (LiveTables.clearHandle s previous.handle).view.typeNamed? handle = none
      rw [typeNamed?_clearHandle, ← Option.some.inj hgiven, Function.update_self]
    · change (LiveTables.clearHandle s previous.handle).view.typeNamed? handle = _
      rw [typeNamed?_clearHandle, Function.update_of_ne]
      exact fun heq ↦ hgiven (congrArg some heq.symm)

/-- Dropping a definition gives up its name. -/
theorem typeNamed?_dropType (s : LiveContent) (t : ContentTypeId) (handle : String) :
    (Retype.dropType s t).1.view.typeNamed? handle =
      if s.handleOf t = some handle then none else s.view.typeNamed? handle := by
  unfold Retype.dropType handleOf
  rw [type?_eq]
  cases s.view.type? t with
  | none => rfl
  | some previous =>
    change (LiveTables.clearHandle s previous.handle).view.typeNamed? handle = _
    rw [typeNamed?_clearHandle, Function.update_apply]
    exact if_congr (by rw [Option.map_some, Option.some.injEq, eq_comm]) rfl rfl

theorem handleOf_putType (s : LiveContent) (d : ContentType) (t : ContentTypeId) :
    (Retype.putType s d).handleOf t = if t = d.id then some d.handle else s.handleOf t := by
  rw [handleOf, (putType_spec s d).2.2.2, Function.update_apply]
  split_ifs <;> rfl

theorem type?_removeType (s : LiveContent) (t : ContentTypeId) :
    (Retype.removeType s t).1.view.type? = Function.update s.view.type? t none := by
  rw [removeType_fst, (dropType_spec _ t).2.2.2,
    type?_of_typeTables (typeTables_withoutNodesOf s t)]

theorem handleOf_removeType (s : LiveContent) (t u : ContentTypeId) :
    (Retype.removeType s t).1.handleOf u = if u = t then none else s.handleOf u := by
  rw [handleOf, type?_removeType, Function.update_apply]
  split_ifs <;> rfl

theorem typeNamed?_removeType (s : LiveContent) (t : ContentTypeId) (handle : String) :
    (Retype.removeType s t).1.view.typeNamed? handle =
      if s.handleOf t = some handle then none else s.view.typeNamed? handle := by
  rw [removeType_fst, typeNamed?_dropType, handleOf_of_typeTables (typeTables_withoutNodesOf s t),
    typeNamed?_of_typeTables (typeTables_withoutNodesOf s t)]

/-! ### No stale name resolves -/

theorem Resolves.congr (h : s.Resolves) {u : LiveContent} (htables : u.typeTables = s.typeTables) :
    u.Resolves := by
  intro handle d hd
  rw [typeNamed?_of_typeTables htables] at hd
  rw [type?_of_typeTables htables]
  exact h handle d hd

/-- What a name resolves to stays stored when the definition of a type without that name changes. -/
theorem Resolves.update (h : s.Resolves) (hfound : s.view.typeNamed? handle = some d)
    {t : ContentTypeId} (hgiven : s.handleOf t ≠ some handle) (type : Option ContentType) :
    Function.update s.view.type? t type d.id = some d ∧ d.handle = handle := by
  obtain ⟨hstored, hname⟩ := h handle d hfound
  refine ⟨?_, hname⟩
  rw [Function.update_of_ne, hstored]
  rintro rfl
  refine hgiven ?_
  rw [handleOf, hstored, Option.map_some, hname]

theorem Resolves.putType (h : s.Resolves) (d : ContentType) : (Retype.putType s d).Resolves := by
  intro handle e he
  rw [typeNamed?_putType] at he
  rw [(putType_spec s d).2.2.2]
  split_ifs at he with htaken hgiven
  · obtain rfl := Option.some.inj he
    exact ⟨Function.update_self _ _ _, htaken.symm⟩
  · exact h.update he hgiven (some d)

theorem Resolves.removeType (h : s.Resolves) (t : ContentTypeId) :
    (Retype.removeType s t).1.Resolves := by
  intro handle e he
  rw [typeNamed?_removeType] at he
  rw [type?_removeType]
  split_ifs at he with hgiven
  exact h.update he hgiven none

/-- No operation of a writer lets a short name resolve to anything but a stored definition that has
the name. -/
theorem resolves_invariant : EditInvariant Resolves where
  set h k := h.congr (typeTables_set _ k)
  removeSubtree h id := h.congr (typeTables_removeSubtree _ id)
  clearTree h := h
  removeType h t := h.removeType t
  putType h d := h.putType d
  rebindNodes h d except := h.congr (typeTables_rebindNodes _ d except)

theorem resolves_empty : LiveContent.empty.Resolves := by
  intro handle d hd
  rw [typeNamed?_empty] at hd
  contradiction

/-! ### The tables of types after an operation -/

theorem typeTables_updateTypes (s : LiveContent) (removed : List ContentTypeId)
    (refreshed : List ContentType) (ks : List ContentKit) :
    (Retype.updateTypes s removed refreshed ks).1.typeTables =
      (Retype.withTypes s removed refreshed).typeTables := by
  rw [Retype.updateTypes_fst, typeTables_rebindAll, typeTables_setOrdered]

/-- As far as types are concerned, an operation removes some and stores others. -/
theorem typeTables_run (s : LiveContent) (call : WriterCall) :
    (call.run s).1.typeTables =
      (Retype.withTypes s (call.removedTypes s) (call.refreshedTypes s)).typeTables := by
  cases call with
  | set k => exact typeTables_set s k
  | clear id => exact typeTables_removeSubtree s id
  | setAll ks => exact typeTables_setOrdered _ ks
  | setBranch root ks =>
    exact (typeTables_setOrdered _ ks).trans (typeTables_removeSubtree s root)
  | setAllTypes types => exact typeTables_updateTypes s _ types []
  | updateTypes removed refreshed ks => exact typeTables_updateTypes s removed refreshed ks
  | updateDataTypes ids resolve r => exact typeTables_updateTypes s [] _ []

theorem type?_removeTypes (s : LiveContent) (ids : List ContentTypeId) (t : ContentTypeId) :
    (Retype.removeTypes s ids).1.view.type? t = if t ∈ ids then none else s.view.type? t := by
  rw [Retype.removeTypes_fst]
  induction ids generalizing s with
  | nil => rfl
  | cons id ids ih =>
    rw [List.foldl_cons, ih, type?_removeType, Function.update_apply]
    by_cases heq : t = id <;> simp [heq]

theorem handleOf_removeTypes (s : LiveContent) (ids : List ContentTypeId) (t : ContentTypeId) :
    (Retype.removeTypes s ids).1.handleOf t = if t ∈ ids then none else s.handleOf t := by
  rw [handleOf, type?_removeTypes]
  split_ifs <;> rfl

/-- Removing types gives up their names and no others. -/
theorem typeNamed?_removeTypes_iff (s : LiveContent) (ids : List ContentTypeId) :
    (Retype.removeTypes s ids).1.view.typeNamed? handle = some d ↔
      (∀ t ∈ ids, s.handleOf t ≠ some handle) ∧ s.view.typeNamed? handle = some d := by
  rw [Retype.removeTypes_fst]
  induction ids generalizing s with
  | nil => simp
  | cons id ids ih =>
    rw [List.foldl_cons, ih, typeNamed?_removeType, List.forall_mem_cons]
    by_cases hgiven : s.handleOf id = some handle
    · simp [hgiven]
    · simp only [handleOf_removeType, hgiven, if_false, ne_eq, not_false_eq_true, true_and]
      refine and_congr_left fun _ ↦ forall₂_congr fun t _ ↦ ?_
      by_cases heq : t = id
      · simp [heq, hgiven]
      · simp [heq]

/-- Storing a definition neither takes a name nor gives it up. -/
def Spares (s : LiveContent) (handle : String) (e : ContentType) : Prop :=
  e.handle ≠ handle ∧ s.handleOf e.id ≠ some handle

theorem typeNamed?_putType_iff (s : LiveContent) (e : ContentType) :
    (Retype.putType s e).view.typeNamed? handle = some d ↔
      e = d ∧ d.handle = handle ∨ s.Spares handle e ∧ s.view.typeNamed? handle = some d := by
  rw [typeNamed?_putType, Spares]
  split_ifs with htaken hgiven
  · rw [Option.some.injEq]
    constructor
    · rintro rfl
      exact Or.inl ⟨rfl, htaken.symm⟩
    · rintro (⟨heq, -⟩ | ⟨⟨hne, -⟩, -⟩)
      · exact heq
      · exact absurd htaken.symm hne
  · refine iff_of_false nofun ?_
    rintro (⟨rfl, hname⟩ | ⟨⟨-, hne⟩, -⟩)
    · exact htaken hname.symm
    · exact hne hgiven
  · constructor
    · exact fun hd ↦ Or.inr ⟨⟨Ne.symm htaken, hgiven⟩, hd⟩
    · rintro (⟨rfl, hname⟩ | ⟨-, hd⟩)
      · exact absurd hname.symm htaken
      · exact hd

/-- After definitions have been stored one after another a name resolves to the one that took it and
had none behind it that took it or gave it up, or else to what it resolved to before. Assumes: no
type is given twice. -/
theorem typeNamed?_foldl_putType_iff (s : LiveContent) {types : List ContentType}
    (hnodup : (types.map ContentType.id).Nodup) :
    (types.foldl Retype.putType s).view.typeNamed? handle = some d ↔
      (d ∈ types ∧ d.handle = handle ∧ ∀ e ∈ Retype.behind d types, s.Spares handle e) ∨
        (∀ e ∈ types, s.Spares handle e) ∧ s.view.typeNamed? handle = some d := by
  induction types generalizing s with
  | nil => simp
  | cons e rest ih =>
    obtain ⟨hfirst, hrest⟩ := List.nodup_cons.mp hnodup
    -- the definitions that follow give up what they gave up before
    have hspares : ∀ x ∈ rest, (Retype.putType s e).Spares handle x ↔ s.Spares handle x := by
      intro x hx
      have hne : x.id ≠ e.id := fun heq ↦ hfirst (heq ▸ List.mem_map_of_mem hx)
      rw [Spares, Spares, handleOf_putType, if_neg hne]
    have hall : (∀ x ∈ rest, (Retype.putType s e).Spares handle x) ↔
        ∀ x ∈ rest, s.Spares handle x := forall₂_congr hspares
    have hbehind : (∀ x ∈ Retype.behind d rest, (Retype.putType s e).Spares handle x) ↔
        ∀ x ∈ Retype.behind d rest, s.Spares handle x :=
      forall₂_congr fun x hx ↦ hspares x (Retype.behind_subset d rest hx)
    rw [List.foldl_cons, ih _ hrest, hall, hbehind, typeNamed?_putType_iff, List.forall_mem_cons,
      List.mem_cons]
    by_cases heq : e = d
    · subst heq
      have hnot : e ∉ rest := fun hmem ↦ hfirst (List.mem_map_of_mem hmem)
      simp only [hnot, Retype.behind, if_true]
      tauto
    · simp only [Retype.behind, heq, Ne.symm heq, if_false]
      tauto

/-! ### Proper operations -/

theorem mem_allTypes {v : ContentView} : d ∈ v.allTypes ↔ ∃ t, v.type? t = some d :=
  ContentView.mem_values_iff

section Proper

variable {call : WriterCall}

theorem Indexed.mem_intendedTypes (h : s.Indexed) :
    d ∈ call.intendedTypes s ↔ d ∈ call.refreshedTypes s ∨
      s.view.type? d.id = some d ∧ d.id ∉ call.removedTypes s ∧
        d.id ∉ (call.refreshedTypes s).map ContentType.id := by
  have hstored : d ∈ s.view.allTypes ↔ s.view.type? d.id = some d := by
    rw [mem_allTypes]
    exact ⟨fun ⟨t, ht⟩ ↦ (h.type_id_eq ht).symm ▸ ht, fun hd ↦ ⟨_, hd⟩⟩
  rw [WriterCall.intendedTypes, List.mem_append, List.mem_filter, hstored, decide_eq_true_iff,
    or_comm]

/-- An operation that gives no type two definitions leaves stored what it is meant to. -/
theorem Indexed.type?_run_iff (h : s.Indexed)
    (hnodup : ((call.refreshedTypes s).map ContentType.id).Nodup) :
    (call.run s).1.view.type? d.id = some d ↔ d ∈ call.intendedTypes s := by
  rw [h.mem_intendedTypes, type?_of_typeTables (typeTables_run s call), Retype.withTypes,
    type?_foldl_putType, type?_removeTypes, Option.or_eq_some_iff, Retype.lastOf_eq_some_iff hnodup]
  refine or_congr (and_iff_left rfl) ?_
  have hnone : Retype.lastOf (call.refreshedTypes s) d.id = none ↔
      d.id ∉ (call.refreshedTypes s).map ContentType.id := by
    rw [Option.eq_none_iff_forall_ne_some]
    simp only [ne_eq, Retype.lastOf_eq_some_iff hnodup, List.mem_map]
    grind
  rw [hnone]
  split_ifs with hremoved <;> simp [hremoved, and_comm]

theorem HandlesDistinct.run (h : s.Indexed) (hproper : call.Proper s) :
    (call.run s).1.HandlesDistinct := by
  intro d e hd he hname
  rw [h.type?_run_iff hproper.1] at hd he
  exact List.inj_on_of_nodup_map hproper.2 hd he hname

/-- A stored definition keeps its name from being given up by other types. -/
theorem HandlesDistinct.id_eq_of_handleOf (hdistinct : s.HandlesDistinct) (h : s.Indexed)
    {t : ContentTypeId} (hd : s.view.type? d.id = some d)
    (ht : s.handleOf t = some d.handle) : t = d.id := by
  obtain ⟨e, he, hname⟩ := Option.map_eq_some_iff.mp ht
  have hid := h.type_id_eq he
  rw [← hid, hdistinct e d (hid.symm ▸ he) hd hname]

/-- What a short name resolves to after an operation that gives no type two definitions. -/
theorem typeNamed?_run_iff_spares (hnodup : ((call.refreshedTypes s).map ContentType.id).Nodup) :
    (call.run s).1.view.typeNamed? handle = some d ↔
      (d ∈ call.refreshedTypes s ∧ d.handle = handle ∧
        ∀ e ∈ Retype.behind d (call.refreshedTypes s),
          (Retype.removeTypes s (call.removedTypes s)).1.Spares handle e) ∨
      (∀ e ∈ call.refreshedTypes s,
        (Retype.removeTypes s (call.removedTypes s)).1.Spares handle e) ∧
        (∀ t ∈ call.removedTypes s, s.handleOf t ≠ some handle) ∧
          s.view.typeNamed? handle = some d := by
  rw [typeNamed?_of_typeTables (typeTables_run s call), Retype.withTypes,
    typeNamed?_foldl_putType_iff _ hnodup, typeNamed?_removeTypes_iff]

/-- An operation that spares a name does not give it up. -/
theorem not_mislays_of_spares (h : ∀ e ∈ Retype.behind d (call.refreshedTypes s),
    (Retype.removeTypes s (call.removedTypes s)).1.Spares d.handle e) : ¬call.Mislays s d := by
  rintro ⟨e, he, hkept, hgiven⟩
  refine (h e he).2 ?_
  rw [handleOf_removeTypes, if_neg hkept]
  exact hgiven

/-- Of a definition that a proper operation leaves stored, no other definition takes the name. -/
theorem handle_ne_of_proper (h : s.Indexed) (hproper : call.Proper s)
    (hd : d ∈ call.intendedTypes s) {e : ContentType} (he : e ∈ call.refreshedTypes s)
    (hne : e ≠ d) : e.handle ≠ d.handle := fun hname ↦
  hne (List.inj_on_of_nodup_map hproper.2 (h.mem_intendedTypes.mpr (Or.inl he)) hd hname)

/-- After a proper operation a short name resolves to a definition exactly when that is stored under
its id, has the name, and is neither mislaid by the operation nor was mislaid before and not given
anew. -/
theorem HandlesDistinct.typeNamed?_run_iff (hdistinct : s.HandlesDistinct) (h : s.Indexed)
    (hresolves : s.Resolves) (hproper : call.Proper s) :
    (call.run s).1.view.typeNamed? handle = some d ↔
      ((call.run s).1.view.type? d.id = some d ∧ d.handle = handle) ∧
        ¬call.Mislays s d ∧ ¬(s.Mislaid d ∧ d ∉ call.refreshedTypes s) := by
  constructor
  · intro hd
    have hstored := resolves_invariant.run hresolves call handle d hd
    obtain rfl := hstored.2
    refine ⟨hstored, ?_⟩
    rcases (typeNamed?_run_iff_spares hproper.1).mp hd with ⟨hmem, -, hbehind⟩ | ⟨hall, -, hbefore⟩
    · exact ⟨not_mislays_of_spares hbehind, fun hmislaid ↦ hmislaid.2 hmem⟩
    · exact ⟨not_mislays_of_spares fun e he ↦ hall e (Retype.behind_subset d _ he),
        fun hmislaid ↦ hmislaid.1.2 hbefore⟩
  · rintro ⟨⟨hstored, rfl⟩, hkept, hfound⟩
    have hintended := (h.type?_run_iff hproper.1).mp hstored
    have hother : ∀ e ∈ call.refreshedTypes s, e ≠ d → e.handle ≠ d.handle :=
      fun e he hne ↦ handle_ne_of_proper h hproper hintended he hne
    rw [typeNamed?_run_iff_spares hproper.1]
    by_cases hmem : d ∈ call.refreshedTypes s
    · refine Or.inl ⟨hmem, rfl, fun e he ↦ ⟨?_, ?_⟩⟩
      · have hne : e ≠ d := fun heq ↦
          Retype.not_mem_behind_self (hproper.1.of_map _) (heq ▸ he)
        exact hother e (Retype.behind_subset d _ he) hne
      · rw [handleOf_removeTypes]
        split_ifs with hremoved
        · exact nofun
        · exact fun hgiven ↦ hkept ⟨e, he, hremoved, hgiven⟩
    · -- a definition that is kept had its name before, and no other type did
      obtain ⟨hbefore, hremoved, hids⟩ := (h.mem_intendedTypes.mp hintended).resolve_left hmem
      refine Or.inr ⟨fun e he ↦ ⟨hother e he fun heq ↦ hmem (heq ▸ he), ?_⟩, ?_, ?_⟩
      · rw [handleOf_removeTypes]
        split_ifs
        · exact nofun
        · intro hgiven
          refine hids ?_
          rw [← hdistinct.id_eq_of_handleOf h hbefore hgiven]
          exact List.mem_map_of_mem he
      · intro t ht hgiven
        exact hremoved (hdistinct.id_eq_of_handleOf h hbefore hgiven ▸ ht)
      · by_contra hlost
        exact hfound ⟨⟨hbefore, hlost⟩, hmem⟩

/-- From tables of types that agree, a proper operation leaves tables that agree exactly when it
mislays no definition. -/
theorem HandlesAgree.run_iff (hagree : s.HandlesAgree) (h : s.Indexed)
    (hproper : call.Proper s) : (call.run s).1.HandlesAgree ↔ ∀ d, ¬call.Mislays s d := by
  have hdistinct : s.HandlesDistinct := by
    intro d e hd he hname
    have hfirst := (hagree d.handle d).mpr ⟨hd, rfl⟩
    have hsecond := (hagree d.handle e).mpr ⟨he, hname.symm⟩
    exact Option.some.inj (hfirst.symm.trans hsecond)
  have hresolves : s.Resolves := fun handle d hd ↦ (hagree handle d).mp hd
  constructor
  · intro hafter d hmislays
    obtain ⟨e, he⟩ := hmislays.imp fun _ he ↦ he.1
    have hmem := h.mem_intendedTypes.mpr (Or.inl (Retype.mem_of_mem_behind he))
    have hstored := (h.type?_run_iff hproper.1).mpr hmem
    have hfound := (hafter d.handle d).mpr ⟨hstored, rfl⟩
    exact ((hdistinct.typeNamed?_run_iff h hresolves hproper).mp hfound).2.1 hmislays
  · intro hkept handle d
    rw [hdistinct.typeNamed?_run_iff h hresolves hproper]
    refine and_iff_left ⟨hkept d, fun hmislaid ↦ ?_⟩
    exact hmislaid.1.2 ((hagree d.handle d).mpr ⟨hmislaid.1.1, rfl⟩)

end Proper

theorem handlesAgree_empty : LiveContent.empty.HandlesAgree := by
  intro handle d
  rw [typeNamed?_empty, type?_empty]
  exact ⟨nofun, fun hd ↦ nomatch hd.1⟩

end LiveContent

/-! ### Names along a run -/

namespace RecordedStore

variable {kind : ItemKind} {options : StoreOptions} {r u : RecordedStore}

/-- A step of a run whose changes of types are proper. -/
inductive ProperStep : RecordedStore → RecordedStore → Prop
  | perform {r : RecordedStore} (hopen : r.clock.writing = true) (call : WriterCall)
      (hproper : call.Proper r.store.live) :
    ProperStep r { r with store := (r.store.perform call).1 }
  | unseen {r u : RecordedStore} (hstep : Step r u) (hsame : u.store.live = r.store.live) :
    ProperStep r u

/-- The states of the runs that start with a new store and make proper steps. -/
def ProperlyReachable (kind : ItemKind) (options : StoreOptions) (r : RecordedStore) : Prop :=
  ∃ s, ContentStore.create kind options = .ok s ∧ Relation.ReflTransGen ProperStep ⟨s, []⟩ r

theorem ProperStep.step (h : ProperStep r u) : Step r u := by
  cases h with
  | perform hopen call _ => exact .perform hopen call
  | unseen hstep _ => exact hstep

theorem ProperlyReachable.reachable (hr : ProperlyReachable kind options r) :
    Reachable kind options r := by
  obtain ⟨s, hs, hsteps⟩ := hr
  exact ⟨s, hs, hsteps.lift id fun _ _ hstep ↦ ProperStep.step hstep⟩

theorem Reachable.resolves (hr : Reachable kind options r) : r.store.live.Resolves :=
  (hr.keeps LiveContent.resolves_invariant LiveContent.resolves_empty).1

theorem Reachable.live_perform (hr : Reachable kind options r) (call : WriterCall) :
    (r.store.perform call).1.live = (call.run r.store.live).1 :=
  (ContentStore.perform_follows hr.faithful.headsLE call).2.1

/-- Proper steps leave every type a name of its own. -/
theorem ProperlyReachable.handlesDistinct (hr : ProperlyReachable kind options r) :
    r.store.live.HandlesDistinct := by
  obtain ⟨s, hs, hsteps⟩ := hr
  induction hsteps with
  | refl =>
    rw [ContentStore.live_eq_of_create hs]
    intro d e hd
    rw [LiveContent.type?_empty] at hd
    contradiction
  | tail hbefore hstep ih =>
    have hmiddle : Reachable kind options _ := ProperlyReachable.reachable ⟨s, hs, hbefore⟩
    cases hstep with
    | perform _ call hproper =>
      rw [hmiddle.live_perform]
      exact LiveContent.HandlesDistinct.run hmiddle.indexed hproper
    | unseen _ hsame => exact hsame ▸ ih

/-- Where the tables of types of a run do not agree, some operation of the run has mislaid a
definition while they did. -/
theorem ProperlyReachable.handlesAgree_or_mislays (hr : ProperlyReachable kind options r) :
    r.store.live.HandlesAgree ∨ ∃ q call d, ProperlyReachable kind options q ∧
      q.store.live.HandlesAgree ∧ q.clock.writing = true ∧ call.Proper q.store.live ∧
        call.Mislays q.store.live d ∧
          Relation.ReflTransGen ProperStep { q with store := (q.store.perform call).1 } r := by
  obtain ⟨s, hs, hsteps⟩ := hr
  induction hsteps with
  | refl =>
    refine Or.inl ?_
    rw [ContentStore.live_eq_of_create hs]
    exact LiveContent.handlesAgree_empty
  | @tail q _ hbefore hstep ih =>
    rcases ih with hagree | ⟨q, call, d, hq, hagree, hopen, hproper, hmislays, hafter⟩
    · have hmiddle : ProperlyReachable kind options q := ⟨s, hs, hbefore⟩
      cases hstep with
      | perform hopen call hproper =>
        by_cases hkept : ∃ d, call.Mislays q.store.live d
        · obtain ⟨d, hmislays⟩ := hkept
          exact Or.inr ⟨q, call, d, hmiddle, hagree, hopen, hproper, hmislays, .refl⟩
        · refine Or.inl ?_
          rw [hmiddle.reachable.live_perform]
          exact (hagree.run_iff hmiddle.reachable.indexed hproper).mpr (not_exists.mp hkept)
      | unseen _ hsame => exact Or.inl (hsame ▸ hagree)
    · exact Or.inr ⟨q, call, d, hq, hagree, hopen, hproper, hmislays, hafter.tail hstep⟩

/-- Which short names are found. In a run of proper steps, after every further proper operation, a
short name resolves to a definition exactly when that is stored under its id and has the name, unless
the operation mislays it or it was mislaid before and is not given anew. Where the tables of types
agree before the operation, they agree after it exactly when it mislays nothing; and where they do
not agree in the end, some operation of the run has mislaid a definition while they did. -/
theorem ProperlyReachable.typeNamed?_perform_iff (hr : ProperlyReachable kind options r) :
    (∀ call, call.Proper r.store.live → ∀ handle d,
      (r.store.perform call).1.live.view.typeNamed? handle = some d ↔
        ((r.store.perform call).1.live.view.type? d.id = some d ∧ d.handle = handle) ∧
          ¬call.Mislays r.store.live d ∧
            ¬(r.store.live.Mislaid d ∧ d ∉ call.refreshedTypes r.store.live)) ∧
    (r.store.live.HandlesAgree → ∀ call, call.Proper r.store.live →
      ((r.store.perform call).1.live.HandlesAgree ↔ ∀ d, ¬call.Mislays r.store.live d)) ∧
    (r.store.live.HandlesAgree ∨ ∃ q call d, ProperlyReachable kind options q ∧
      q.store.live.HandlesAgree ∧ q.clock.writing = true ∧ call.Proper q.store.live ∧
        call.Mislays q.store.live d ∧
          Relation.ReflTransGen ProperStep { q with store := (q.store.perform call).1 } r) := by
  have hreachable := hr.reachable
  refine ⟨fun call hproper handle d ↦ ?_, fun hagree call hproper ↦ ?_, ?_⟩
  · rw [hreachable.live_perform]
    exact hr.handlesDistinct.typeNamed?_run_iff hreachable.indexed hreachable.resolves hproper
  · rw [hreachable.live_perform]
    exact hagree.run_iff hreachable.indexed hproper
  · exact hr.handlesAgree_or_mislays

/-- Two types, each with a name of its own, stored in a first section. -/
def typesStored : RecordedStore :=
  let s : ContentStore := ⟨.content, Engine.new StoreOptions.default, .empty, .empty⟩
  ⟨(s.openSection.perform (.setAllTypes [.new ⟨1⟩ "a" .content, .new ⟨2⟩ "b" .content])).1, []⟩

/-- The two types exchange their names. -/
def exchangeNames : WriterCall :=
  .updateTypes [] [.new ⟨1⟩ "b" .content, .new ⟨2⟩ "a" .content] []

theorem properlyReachable_typesStored :
    ProperlyReachable .content StoreOptions.default typesStored :=
  ⟨_, rfl, .tail (.tail .refl (.unseen (.openSection rfl) rfl))
    (.perform rfl _ (by decide +kernel))⟩

theorem proper_exchangeNames : exchangeNames.Proper typesStored.store.live := by decide +kernel

/-- The first type has its new name, and yet that name resolves to nothing: the tables of types do
not always agree after a proper operation. -/
theorem not_handlesAgree_exchangeNames :
    ProperlyReachable .content StoreOptions.default typesStored ∧
      exchangeNames.Proper typesStored.store.live ∧
      (typesStored.store.perform exchangeNames).1.live.view.type? ⟨1⟩ =
        some (.new ⟨1⟩ "b" .content) ∧
      (typesStored.store.perform exchangeNames).1.live.view.typeNamed? "b" = none ∧
      ¬∀ r call, ProperlyReachable .content StoreOptions.default r → call.Proper r.store.live →
        (r.store.perform call).1.live.HandlesAgree := by
  have htype : (typesStored.store.perform exchangeNames).1.live.view.type? ⟨1⟩ =
      some (.new ⟨1⟩ "b" .content) := by decide +kernel
  have hname : (typesStored.store.perform exchangeNames).1.live.view.typeNamed? "b" = none := by
    decide +kernel
  refine ⟨properlyReachable_typesStored, proper_exchangeNames, htype, hname, fun hall ↦ ?_⟩
  have hagree := hall typesStored exchangeNames properlyReachable_typesStored proper_exchangeNames
  have hfound := (hagree "b" (.new ⟨1⟩ "b" .content)).mpr ⟨htype, rfl⟩
  rw [hname] at hfound
  contradiction

/-- The exchange mislays the first definition and not the second: the name of the second is found,
that of the first is not. -/
theorem ProperlyReachable.typeNamed?_perform_iff_exchangeNames :
    exchangeNames.Mislays typesStored.store.live (.new ⟨1⟩ "b" .content) ∧
      (typesStored.store.perform exchangeNames).1.live.view.typeNamed? "b" ≠
        some (.new ⟨1⟩ "b" .content) ∧
      (typesStored.store.perform exchangeNames).1.live.view.typeNamed? "a" =
        some (.new ⟨2⟩ "a" .content) := by
  have hmislays : exchangeNames.Mislays typesStored.store.live (.new ⟨1⟩ "b" .content) := by
    decide +kernel
  have hiff := properlyReachable_typesStored.typeNamed?_perform_iff.1 exchangeNames
    proper_exchangeNames
  refine ⟨hmislays, fun hfound ↦ ((hiff _ _).mp hfound).2.1 hmislays, (hiff _ _).mpr ?_⟩
  exact ⟨⟨by decide +kernel, rfl⟩, by decide +kernel, by decide +kernel⟩

end RecordedStore

end VersionedContent
