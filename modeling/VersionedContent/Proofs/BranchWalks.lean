import VersionedContent.Churn
import Mathlib.Data.Finset.Card
import Mathlib.Data.List.Nodup
import Mathlib.Logic.Function.Iterate
import Mathlib.Logic.Relation

/-!
# Walks down a dump

The kits of a branch are found by a walk that keeps a list of ids still to be looked at
(`Churn.BranchWalk`) and does not keep the ids it has looked at. The parents that a dump names may
run in a circle, as nothing but the store, which skips such kits, looks at them. The walk from an id
ends exactly when no kit at or below the id is below itself; when it ends, it has found exactly the
kits at or below the id, and each of them once if the ids of the dump are distinct
(`Churn.branchTaken`). A kit that names itself as its parent is walked to without end
(`Churn.not_ends_selfParented`).
-/

set_option autoImplicit false

namespace VersionedContent.Churn

open Relation Function

/-! ### Parents named by a dump -/

/-- Some kit of an id names another id as its parent. -/
def NamesParent (kits : List ContentKit) (id parent : ContentId) : Prop :=
  ∃ k ∈ kits, k.id = id ∧ k.parentId = some parent

/-- The parents that kits name lead from an id to another one, which may be the same. -/
abbrev AtOrBelow (kits : List ContentKit) : ContentId → ContentId → Prop :=
  ReflTransGen (NamesParent kits)

/-- Some id at or below another one is below itself. -/
def Circled (kits : List ContentKit) (root : ContentId) : Prop :=
  ∃ id, AtOrBelow kits id root ∧ TransGen (NamesParent kits) id id

variable {kits : List ContentKit} {w : BranchWalk} {id root : ContentId}

/-- Below an id without a circle there is none either. -/
theorem not_circled_of_atOrBelow (hbelow : AtOrBelow kits id root) (hend : ¬ Circled kits root) :
    ¬ Circled kits id :=
  fun ⟨c, hc, hcircle⟩ ↦ hend ⟨c, hc.trans hbelow, hcircle⟩

/-- Below an id are the ids at or below those that name it as their parent. -/
theorem transGen_iff {top : ContentId} :
    TransGen (NamesParent kits) id top ↔ ∃ c, AtOrBelow kits id c ∧ NamesParent kits c top :=
  TransGen.tail'_iff

/-- With distinct ids a kit names the only parent of its id. -/
theorem rightUnique_namesParent (hdistinct : (kits.map ContentKit.id).Nodup) :
    Relator.RightUnique (NamesParent kits) := by
  rintro id p q ⟨k, hk, hid, hp⟩ ⟨k', hk', hid', hq⟩
  obtain rfl := List.inj_on_of_nodup_map hdistinct hk hk' (hid.trans hid'.symm)
  exact Option.some.inj (hp.symm.trans hq)

/-! ### Steps of the walk -/

/-- The ids whose kits name an id as their parent, in the order in which they are looked at. -/
def idsBelow (kits : List ContentKit) (id : ContentId) : List ContentId :=
  ((kits.filter (·.parentId == some id)).map ContentKit.id).reverse

theorem mem_idsBelow {c : ContentId} : c ∈ idsBelow kits id ↔ NamesParent kits c id := by
  simp only [idsBelow, NamesParent, List.mem_reverse, List.mem_map, List.mem_filter, beq_iff_eq]
  exact exists_congr fun k ↦ by tauto

theorem nodup_idsBelow (hdistinct : (kits.map ContentKit.id).Nodup) :
    (idsBelow kits id).Nodup :=
  List.nodup_reverse.mpr (hdistinct.sublist (List.filter_sublist.map _))

namespace BranchWalk

@[simp] theorem step_cons (rest : List ContentId) (found : List ContentKit) :
    step kits ⟨id :: rest, found⟩ =
      ⟨idsBelow kits id ++ rest, found ++ kits.filter (·.id == id)⟩ := rfl

/-- What the walk finds in the end is not changed by a step. -/
theorem run_step (kits : List ContentKit) (w : BranchWalk) :
    run kits (w.step kits) = run kits w := by
  obtain ⟨_ | ⟨id, rest⟩, found⟩ := w
  · rfl
  · conv_rhs => rw [run, repeatM_eq_of_monadTail]
    rfl

theorem run_iterate (kits : List ContentKit) (n : Nat) (w : BranchWalk) :
    run kits ((step kits)^[n] w) = run kits w := by
  induction n with
  | zero => rfl
  | succ n ih => rw [iterate_succ_apply', run_step, ih]

/-- With nothing left to be looked at, the walk gives what it has found. -/
theorem run_nil (found : List ContentKit) : run kits ⟨[], found⟩ = found := by
  rw [run, repeatM_eq_of_monadTail]
  rfl

/-- After some number of steps nothing is left to be looked at. -/
def Ends (kits : List ContentKit) (w : BranchWalk) : Prop :=
  ∃ n, ((step kits)^[n] w).pending = []

/-- A walk that ends gives what it has found by then. -/
theorem Ends.exists_iterate (hends : w.Ends kits) :
    ∃ n, (step kits)^[n] w = ⟨[], run kits w⟩ := by
  obtain ⟨n, hpending⟩ := hends
  have hstate : (step kits)^[n] w = ⟨[], ((step kits)^[n] w).found⟩ := by rw [← hpending]
  refine ⟨n, ?_⟩
  rw [← run_iterate kits n w, hstate, run_nil]

/-! ### Where it ends -/

/-- From some ids the walk comes to what was left to be looked at after them. -/
def Passes (kits : List ContentKit) (ids : List ContentId) : Prop :=
  ∃ n found', ∀ rest found,
    (step kits)^[n] ⟨ids ++ rest, found⟩ = ⟨rest, found ++ found'⟩

theorem passes_nil : Passes kits [] := ⟨0, [], fun _ _ ↦ by simp⟩

theorem Passes.append {ids ids' : List ContentId} (hids : Passes kits ids)
    (hids' : Passes kits ids') : Passes kits (ids ++ ids') := by
  obtain ⟨n, found, hn⟩ := hids
  obtain ⟨m, found', hm⟩ := hids'
  refine ⟨m + n, found ++ found', fun rest before ↦ ?_⟩
  rw [iterate_add_apply, List.append_assoc, hn, hm, List.append_assoc]

theorem passes_of_forall {ids : List ContentId} (hids : ∀ id ∈ ids, Passes kits [id]) :
    Passes kits ids := by
  induction ids with
  | nil => exact passes_nil
  | cons id ids ih =>
    rw [List.forall_mem_cons] at hids
    exact hids.1.append (ih hids.2)

theorem Passes.of_idsBelow (hbelow : Passes kits (idsBelow kits id)) : Passes kits [id] := by
  obtain ⟨n, found, hn⟩ := hbelow
  refine ⟨n + 1, kits.filter (·.id == id) ++ found, fun rest before ↦ ?_⟩
  rw [iterate_succ_apply, List.singleton_append, step_cons, hn, List.append_assoc]

open Classical in
/-- The ids of a dump below one of them. Without a circle they become fewer on every step down. -/
noncomputable def idsUnder (kits : List ContentKit) (id : ContentId) : Finset ContentId :=
  (kits.map ContentKit.id).toFinset.filter fun c ↦ TransGen (NamesParent kits) c id

theorem idsUnder_ssubset {c : ContentId} (hend : ¬ Circled kits id) (hc : NamesParent kits c id) :
    idsUnder kits c ⊂ idsUnder kits id := by
  classical
  have hmem : c ∈ (kits.map ContentKit.id).toFinset := by
    obtain ⟨k, hk, rfl, -⟩ := hc
    simpa using ⟨k, hk, rfl⟩
  refine Finset.ssubset_iff_of_subset ?_ |>.mpr
    ⟨c, Finset.mem_filter.mpr ⟨hmem, .single hc⟩, fun hself ↦ ?_⟩
  · exact Finset.monotone_filter_right _ fun d _ hd ↦ hd.tail hc
  · exact hend ⟨c, .single hc, (Finset.mem_filter.mp hself).2⟩

theorem passes_of_not_circled (hend : ¬ Circled kits id) : Passes kits [id] := by
  induction hsize : (idsUnder kits id).card using Nat.strong_induction_on generalizing id with
  | _ size ih =>
    refine (passes_of_forall fun c hc ↦ ?_).of_idsBelow
    rw [mem_idsBelow] at hc
    exact ih _ (hsize ▸ Finset.card_lt_card (idsUnder_ssubset hend hc))
      (not_circled_of_atOrBelow (.single hc) hend) rfl

/-- An id that is to be looked at has a circle at or below it. -/
def Doomed (kits : List ContentKit) (w : BranchWalk) : Prop := ∃ id ∈ w.pending, Circled kits id

theorem Doomed.step (hw : w.Doomed kits) : (w.step kits).Doomed kits := by
  obtain ⟨_ | ⟨top, rest⟩, found⟩ := w
  · exact hw
  · obtain ⟨id, hid, c, hc, hcircle⟩ := hw
    obtain rfl | hrest := List.mem_cons.mp hid
    · obtain ⟨d, hcd, hd⟩ := transGen_iff.mp (hcircle.trans_left hc)
      exact ⟨d, by simp [mem_idsBelow.mpr hd], c, hcd, hcircle⟩
    · exact ⟨id, by simp [hrest], c, hc, hcircle⟩

theorem Doomed.not_ends (hw : w.Doomed kits) : ¬ w.Ends kits := by
  rintro ⟨n, hpending⟩
  have hdoomed : ((BranchWalk.step kits)^[n] w).Doomed kits := by
    clear hpending
    induction n with
    | zero => exact hw
    | succ n ih => rw [iterate_succ_apply']; exact ih.step
  obtain ⟨id, hid, -⟩ := hdoomed
  simp [hpending] at hid

theorem ends_iff : Ends kits ⟨[root], []⟩ ↔ ¬ Circled kits root := by
  refine ⟨fun hends hcircle ↦ Doomed.not_ends ⟨root, by simp, hcircle⟩ hends, fun hend ↦ ?_⟩
  obtain ⟨n, found, hn⟩ := passes_of_not_circled hend
  exact ⟨n, congrArg pending (hn [] [])⟩

/-! ### What it finds -/

/-- The kits of a branch are those found and those at or below an id still to be looked at. -/
def Covers (kits : List ContentKit) (root : ContentId) (w : BranchWalk) : Prop :=
  ∀ k, k ∈ kits ∧ AtOrBelow kits k.id root ↔
    k ∈ w.found ∨ k ∈ kits ∧ ∃ id ∈ w.pending, AtOrBelow kits k.id id

theorem atOrBelow_iff (kits : List ContentKit) (id top : ContentId) :
    AtOrBelow kits id top ↔ id = top ∨ ∃ c ∈ idsBelow kits top, AtOrBelow kits id c := by
  rw [AtOrBelow, reflTransGen_iff_eq_or_transGen, transGen_iff]
  simp only [mem_idsBelow, eq_comm, and_comm]

theorem Covers.step (hw : w.Covers kits root) : (w.step kits).Covers kits root := by
  obtain ⟨_ | ⟨top, rest⟩, found⟩ := w
  · exact hw
  · intro k
    rw [hw k]
    simp only [step_cons, List.mem_append, List.mem_cons, List.mem_filter, beq_iff_eq,
      or_and_right, exists_or, exists_eq_left, atOrBelow_iff kits k.id top, and_or_left, or_assoc]

/-- Distinct kits were found, none of them at or below an id still to be looked at, and nothing is
at or below two of these ids. -/
structure Apart (kits : List ContentKit) (w : BranchWalk) : Prop where
  nodup : w.found.Nodup
  found : ∀ k ∈ w.found, ∀ id ∈ w.pending, ¬ AtOrBelow kits k.id id
  pending : w.pending.Pairwise fun a b ↦ ∀ c, AtOrBelow kits c a → ¬ AtOrBelow kits c b
  ends : ∀ id ∈ w.pending, ¬ Circled kits id

/-- With distinct ids nothing is at or below two ids that name the same parent, unless there is a
circle. -/
theorem not_atOrBelow_of_siblings (hdistinct : (kits.map ContentKit.id).Nodup)
    (hend : ¬ Circled kits root) {a b c : ContentId} (hne : a ≠ b)
    (ha : NamesParent kits a root) (hb : NamesParent kits b root) (hca : AtOrBelow kits c a) :
    ¬ AtOrBelow kits c b := by
  intro hcb
  -- one of the siblings would be above the other, and with it above their parent
  have habove : ∀ {a b : ContentId}, a ≠ b → NamesParent kits a root → NamesParent kits b root →
      ¬ AtOrBelow kits a b := by
    intro a b hne ha hb hab
    obtain rfl | ⟨p, hp, hpb⟩ := hab.cases_head
    · exact hne rfl
    · obtain rfl := rightUnique_namesParent hdistinct ha hp
      exact hend ⟨root, .refl, .tail' hpb hb⟩
  obtain hab | hba := ReflTransGen.total_of_right_unique (rightUnique_namesParent hdistinct) hca hcb
  · exact habove hne ha hb hab
  · exact habove hne.symm hb ha hba

theorem Apart.step (hdistinct : (kits.map ContentKit.id).Nodup) (hw : w.Apart kits) :
    (w.step kits).Apart kits := by
  obtain ⟨_ | ⟨top, rest⟩, found⟩ := w
  · exact hw
  · obtain ⟨hnodup, hfound, hpending, hends⟩ := hw
    simp only [List.mem_cons, forall_eq_or_imp, List.pairwise_cons] at hfound hpending hends
    have htop : ∀ c ∈ idsBelow kits top, ∀ d, AtOrBelow kits d c → AtOrBelow kits d top :=
      fun c hc d hd ↦ hd.tail (mem_idsBelow.mp hc)
    have hitself : ∀ c ∈ idsBelow kits top, ¬ AtOrBelow kits top c :=
      fun c hc hd ↦ hends.1 ⟨top, .refl, .tail' hd (mem_idsBelow.mp hc)⟩
    refine ⟨?_, fun k hk id hid ↦ ?_, ?_, fun id hid ↦ ?_⟩
    · refine hnodup.append (hdistinct.of_map.filter _) fun k hk htop' ↦ ?_
      have heq : k.id = top := by simpa using (List.mem_filter.mp htop').2
      exact (hfound k hk).1 (heq ▸ .refl)
    · simp only [step_cons, List.mem_append, List.mem_filter, beq_iff_eq] at hk hid
      obtain hk | ⟨-, rfl⟩ := hk <;> obtain hid | hid := hid
      · exact fun hd ↦ (hfound k hk).1 (htop id hid _ hd)
      · exact (hfound k hk).2 id hid
      · exact hitself id hid
      · exact hpending.1 id hid _ .refl
    · refine List.pairwise_append.mpr ⟨?_, hpending.2, fun a ha b hb c hca ↦ ?_⟩
      · refine (nodup_idsBelow hdistinct).imp_of_mem fun ha hb hne c hca ↦ ?_
        exact not_atOrBelow_of_siblings hdistinct hends.1 hne (mem_idsBelow.mp ha)
          (mem_idsBelow.mp hb) hca
      · exact hpending.1 b hb c (htop a ha c hca)
    · simp only [step_cons, List.mem_append] at hid
      obtain hid | hid := hid
      · exact not_circled_of_atOrBelow (.single (mem_idsBelow.mp hid)) hends.1
      · exact hends.2 id hid

/-- What every step keeps holds of what the walk gives in the end. -/
theorem Ends.keeps {P : BranchWalk → Prop} (hends : w.Ends kits)
    (hstep : ∀ v, P v → P (v.step kits)) (hw : P w) : P ⟨[], run kits w⟩ := by
  obtain ⟨n, hn⟩ := hends.exists_iterate
  rw [← hn]
  clear hn
  induction n with
  | zero => exact hw
  | succ n ih => rw [iterate_succ_apply']; exact hstep _ ih

end BranchWalk

/-! ### Branches -/

/-- A branch of a dump has the kits at or below its root, whatever their ids. -/
theorem mem_branchOf (hend : ¬ Circled kits root) {k : ContentKit} :
    k ∈ branchOf kits root ↔ k ∈ kits ∧ AtOrBelow kits k.id root := by
  have hcovers : BranchWalk.Covers kits root ⟨[], branchOf kits root⟩ :=
    (BranchWalk.ends_iff.mpr hend).keeps (fun _ ↦ BranchWalk.Covers.step) fun k ↦ by simp
  simp [hcovers k]

/-- With distinct ids a branch has each of its kits once. -/
theorem nodup_branchOf (hdistinct : (kits.map ContentKit.id).Nodup) (hend : ¬ Circled kits root) :
    (branchOf kits root).Nodup := by
  have hapart : BranchWalk.Apart kits ⟨[], branchOf kits root⟩ :=
    (BranchWalk.ends_iff.mpr hend).keeps (fun _ ↦ BranchWalk.Apart.step hdistinct)
      ⟨.nil, by simp, by simp, by simpa using hend⟩
  exact hapart.nodup

/-- A walk down a dump. It ends exactly when no id at or below its root is below itself. It then
has found the kits at or below the root, each once if the ids of the dump are distinct. -/
structure BranchTaken (kits : List ContentKit) (root : ContentId) : Prop where
  ends_iff : BranchWalk.Ends kits ⟨[root], []⟩ ↔ ¬ Circled kits root
  found : ¬ Circled kits root →
    ∃ n, (BranchWalk.step kits)^[n] ⟨[root], []⟩ = ⟨[], branchOf kits root⟩
  mem_iff : ¬ Circled kits root →
    ∀ k, k ∈ branchOf kits root ↔ k ∈ kits ∧ AtOrBelow kits k.id root
  nodup : ¬ Circled kits root → (kits.map ContentKit.id).Nodup → (branchOf kits root).Nodup

/-- Every walk down a dump takes its branch, or has no end. -/
theorem branchTaken (kits : List ContentKit) (root : ContentId) : BranchTaken kits root where
  ends_iff := BranchWalk.ends_iff
  found hend := (BranchWalk.ends_iff.mpr hend).exists_iterate
  mem_iff hend _ := mem_branchOf hend
  nodup hend hdistinct := nodup_branchOf hdistinct hend

/-- A page that names itself as its parent. -/
def selfParented : ContentKit :=
  { ContentKit.new ⟨1⟩ ⟨1⟩ Uuid.nil default with parentId := some ⟨1⟩ }

/-- The walk to a page that names itself as its parent has no end, although its id is distinct. -/
theorem not_ends_selfParented :
    ([selfParented].map ContentKit.id).Nodup ∧
      ∀ n, ((BranchWalk.step [selfParented])^[n] ⟨[selfParented.id], []⟩).pending ≠ [] := by
  have hcircle : Circled [selfParented] selfParented.id :=
    ⟨⟨1⟩, .refl, .single ⟨selfParented, List.mem_singleton_self _, rfl, rfl⟩⟩
  have hend : ¬ BranchWalk.Ends [selfParented] ⟨[selfParented.id], []⟩ :=
    fun hends ↦ BranchWalk.ends_iff.mp hends hcircle
  exact ⟨List.nodup_singleton _, fun n hn ↦ hend ⟨n, hn⟩⟩

end VersionedContent.Churn
