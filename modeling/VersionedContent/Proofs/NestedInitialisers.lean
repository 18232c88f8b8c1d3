import Mathlib.Tactic.SplitIfs
import VersionedContent.ElementsCache

/-!
# Initialisers that use the cache

An initialiser is a computation that may call the cache it computes for: get values, clear the
cache, or have further values computed, under any key and type, to any finite depth
(`CacheProgram`). Its run notes which initialisers are started on the way, so that it shows which
are not.

Whatever the calls nested in it do, one call of the cache keeps its contract
(`CacheProgram.coherent`): a value that is there is returned without a computation; a value that the
nested calls leave wins over the computed one; else the computed value takes the place of whatever
is under the key. The nested calls may have changed this very entry, so the two look-ups of a call
are taken apart: one in the cache as it is, one in the cache as the initialiser leaves it.
-/

set_option autoImplicit false

namespace VersionedContent

/-! ### Look-ups and insertions -/

namespace ElementsCache

variable {ι : Type} {β : ι → Type} {c : ElementsCache ι β} {key : String} {type : ι}
variable {value : β type}

@[simp] theorem getElem?_insert_self (c : ElementsCache ι β) (key : String) (type : ι)
    (value : β type) : (c.insert key type value).entries[key]? = some ⟨type, value⟩ :=
  Std.ExtTreeMap.getElem?_insert_self

theorem getElem?_insert_of_ne {other : String} (hother : other ≠ key) :
    (c.insert key type value).entries[other]? = c.entries[other]? := by
  rw [insert, Std.ExtTreeMap.getElem?_insert, if_neg]
  exact fun hcompare ↦ hother (Std.LawfulEqOrd.eq_of_compare hcompare).symm

/-- An insertion adds to the size unless the key is there already. -/
theorem size_insert (c : ElementsCache ι β) (key : String) (type : ι) (value : β type) :
    (c.insert key type value).size = c.size + if c.entries[key]?.isSome then 0 else 1 := by
  rw [size, insert, Std.ExtTreeMap.size_insert, ← Std.ExtTreeMap.isSome_getElem?_eq_contains]
  split_ifs <;> rfl

/-- The size of a cache is the number of its keys, each counted once. -/
theorem exists_keys (c : ElementsCache ι β) :
    ∃ keys : List String, keys.Nodup ∧ keys.length = c.size ∧
      ∀ other, other ∈ keys ↔ c.entries[other]?.isSome = true := by
  refine ⟨c.entries.keys, Std.ExtTreeMap.nodup_keys, Std.ExtTreeMap.length_keys, fun other ↦ ?_⟩
  rw [Std.ExtTreeMap.mem_keys, Std.ExtTreeMap.mem_iff_isSome_getElem?]

variable [DecidableEq ι]

@[simp] theorem cast?_self (type : ι) (value : β type) : cast? type ⟨type, value⟩ = some value := by
  simp [cast?]

@[simp] theorem get?_insert_self (c : ElementsCache ι β) (key : String) (type : ι)
    (value : β type) : (c.insert key type value).get? key type = some value := by
  rw [get?, getElem?_insert_self, Option.bind_some, cast?_self]

theorem isSome_of_get? (h : c.get? key type = some value) : c.entries[key]?.isSome = true := by
  obtain ⟨stored, hstored, -⟩ := Option.bind_eq_some_iff.mp h
  rw [hstored, Option.isSome_some]

variable {m : Type → Type} [Monad m]

/-- A hit does without the initialiser, whatever effects that may have. -/
theorem getOrInsertWithM_of_some (h : c.get? key type = some value)
    (init : ElementsCache ι β → m (ElementsCache ι β × β type)) :
    c.getOrInsertWithM key type init = pure (c, value) := by
  rw [getOrInsertWithM, h]

/-- What a call makes of the cache that its initialiser leaves and of the value computed. -/
def settled (key : String) (type : ι) (left : ElementsCache ι β × β type) :
    ElementsCache ι β × β type :=
  match left.1.get? key type with
  | some earlier => (left.1, earlier)
  | none => (left.1.insert key type left.2, left.2)

/-- A miss runs the initialiser once and settles what it leaves. -/
theorem getOrInsertWithM_of_none (h : c.get? key type = none)
    (init : ElementsCache ι β → m (ElementsCache ι β × β type)) :
    c.getOrInsertWithM key type init =
      init c >>= fun left ↦ pure (settled key type left) := by
  rw [getOrInsertWithM, h]
  refine congrArg (init c >>= ·) (funext fun ⟨d, computed⟩ ↦ ?_)
  unfold settled
  cases hleft : d.get? key type <;> simp [hleft]

end ElementsCache

/-! ### Computations that use a cache -/

/-- A computation that uses a cache, with a result of one of the types. What it does next may depend
on what its calls return. -/
inductive CacheProgram (ι : Type) (β : ι → Type) : ι → Type
  | done {t : ι} (v : β t) : CacheProgram ι β t
  | get {t : ι} (key : String) (type : ι) (next : Option (β type) → CacheProgram ι β t) :
    CacheProgram ι β t
  | clear {t : ι} (next : CacheProgram ι β t) : CacheProgram ι β t
  | getOrInsert {t : ι} (key : String) (type : ι) (init : CacheProgram ι β type)
    (next : β type → CacheProgram ι β t) : CacheProgram ι β t

/-- What the run of a computation comes to. -/
structure CacheRun (ι : Type) (β : ι → Type) (t : ι) where
  /-- The cache that it leaves. -/
  cache : ElementsCache ι β
  value : β t
  /-- The keys and types whose initialisers were started on the way, in this order. -/
  started : List (String × ι)

/-- A run and what goes on after it, as one run. -/
def CacheRun.followedBy {ι : Type} {β : ι → Type} {t u : ι} (first : CacheRun ι β t)
    (second : CacheRun ι β u) : CacheRun ι β u :=
  { second with started := first.started ++ second.started }

namespace CacheProgram

variable {ι : Type} [DecidableEq ι] {β : ι → Type} {t : ι}

/-- Runs a computation on a cache. Initialisers are noted when they are started. -/
def run {t : ι} :
    CacheProgram ι β t → ElementsCache ι β → StateM (List (String × ι)) (ElementsCache ι β × β t)
  | .done v, c => pure (c, v)
  | .get key type next, c => (next (c.get? key type)).run c
  | .clear next, _ => next.run .empty
  | .getOrInsert key type init next, c => do
    let (c, v) ← c.getOrInsertWithM key type fun c ↦ do
      modify (· ++ [(key, type)])
      init.run c
    (next v).run c

/-- What a computation comes to when nothing has been noted before. -/
def outcome (p : CacheProgram ι β t) (c : ElementsCache ι β) : CacheRun ι β t :=
  let ((cache, value), started) := (p.run c).run []
  ⟨cache, value, started⟩

variable {p : CacheProgram ι β t} {c : ElementsCache ι β} {key : String} {type : ι}

theorem run_of_hit {v : β type} (h : c.get? key type = some v) (init : CacheProgram ι β type)
    (next : β type → CacheProgram ι β t) :
    (getOrInsert key type init next).run c = (next v).run c := by
  rw [run, ElementsCache.getOrInsertWithM_of_some h, pure_bind]

theorem run_of_miss (h : c.get? key type = none) (init : CacheProgram ι β type)
    (next : β type → CacheProgram ι β t) (noted : List (String × ι)) :
    ((getOrInsert key type init next).run c).run noted =
      let left := (init.run c).run (noted ++ [(key, type)])
      let settled := ElementsCache.settled key type left.1
      ((next settled.2).run settled.1).run left.2 := by
  rw [run, ElementsCache.getOrInsertWithM_of_none h]
  rfl

/-- What has been noted before makes no difference to a run. -/
theorem run_run (p : CacheProgram ι β t) (c : ElementsCache ι β) (noted : List (String × ι)) :
    (p.run c).run noted =
      (((p.outcome c).cache, (p.outcome c).value), noted ++ (p.outcome c).started) := by
  induction p generalizing c noted with
  | done v =>
    show ((c, v), noted) = ((c, v), noted ++ [])
    rw [List.append_nil]
  | get key type next ih => exact ih _ c noted
  | clear next ih => exact ih _ noted
  | getOrInsert key type init next ihinit ihnext =>
    cases hkey : c.get? key type with
    | some v =>
      rw [outcome, run_of_hit hkey]
      exact ihnext v c noted
    | none =>
      rw [outcome, run_of_miss hkey, run_of_miss hkey]
      simp only [ihinit c, ihnext]
      simp

theorem outcome_done (v : β t) (c : ElementsCache ι β) : (done v).outcome c = ⟨c, v, []⟩ := rfl

theorem outcome_of_hit {v : β type} (h : c.get? key type = some v) (init : CacheProgram ι β type)
    (next : β type → CacheProgram ι β t) :
    (getOrInsert key type init next).outcome c = (next v).outcome c := by
  rw [outcome, run_of_hit h]
  rfl

theorem outcome_of_miss (h : c.get? key type = none) (init : CacheProgram ι β type)
    (next : β type → CacheProgram ι β t) :
    (getOrInsert key type init next).outcome c =
      let settled := ElementsCache.settled key type ((init.outcome c).cache, (init.outcome c).value)
      CacheRun.followedBy ⟨settled.1, settled.2, (key, type) :: (init.outcome c).started⟩
        ((next settled.2).outcome settled.1) := by
  rw [outcome, run_of_miss h]
  simp only [run_run]
  rfl

/-! ### One call -/

/-- A call of a cache, and nothing else. -/
def call (key : String) (type : ι) (init : CacheProgram ι β type) : CacheProgram ι β type :=
  .getOrInsert key type init .done

/-- The cache as the calls nested in an initialiser leave it. After a hit there are none. -/
def left (c : ElementsCache ι β) (key : String) (type : ι) (nested : CacheRun ι β type) :
    ElementsCache ι β :=
  if (c.get? key type).isSome then c else nested.cache

theorem left_of_hit {v : β type} (h : c.get? key type = some v) (nested : CacheRun ι β type) :
    left c key type nested = c := by
  rw [left, h, Option.isSome_some, if_pos rfl]

theorem left_of_miss (h : c.get? key type = none) (nested : CacheRun ι β type) :
    left c key type nested = nested.cache := by
  rw [left, h, Option.isSome_none, if_neg Bool.false_ne_true]

/-- The contract of a call, given what the run of its initialiser comes to, should there be one. -/
structure Coherent (c : ElementsCache ι β) (key : String) (type : ι)
    (nested called : CacheRun ι β type) : Prop where
  /-- A value that is there is returned, and the initialiser is not started. -/
  hit : ∀ v, c.get? key type = some v → called = ⟨c, v, []⟩
  /-- A value that the nested calls leave is returned; the result of the initialiser is dropped. -/
  earlier : c.get? key type = none → ∀ v, nested.cache.get? key type = some v →
    called = ⟨nested.cache, v, (key, type) :: nested.started⟩
  /-- Else the result of the initialiser takes the place of whatever is under the key. -/
  computed : c.get? key type = none → nested.cache.get? key type = none →
    called.value = nested.value ∧ called.started = (key, type) :: nested.started ∧
      called.cache.entries[key]? = some ⟨type, nested.value⟩
  get?_eq : called.cache.get? key type = some called.value
  others : ∀ other, other ≠ key →
    called.cache.entries[other]? = (left c key type nested).entries[other]?
  size_eq : called.cache.size = (left c key type nested).size +
    if (left c key type nested).entries[key]?.isSome then 0 else 1
  keys : ∃ keys : List String, keys.Nodup ∧ keys.length = called.cache.size ∧
    ∀ other, other ∈ keys ↔ called.cache.entries[other]?.isSome = true

/-- A call after a hit. -/
theorem coherent_of_hit {v : β type} (h : c.get? key type = some v) (nested : CacheRun ι β type) :
    Coherent c key type nested ⟨c, v, []⟩ where
  hit w hw := by rw [Option.some.inj (h.symm.trans hw)]
  earlier hnone := by simp [h] at hnone
  computed hnone := by simp [h] at hnone
  get?_eq := h
  others _ _ := by rw [left_of_hit h]
  size_eq := by rw [left_of_hit h, if_pos (ElementsCache.isSome_of_get? h), Nat.add_zero]
  keys := c.exists_keys

/-- A call after a miss, once the nested calls have left a value. -/
theorem coherent_of_earlier (h : c.get? key type = none) {nested : CacheRun ι β type} {v : β type}
    (hleft : nested.cache.get? key type = some v) :
    Coherent c key type nested ⟨nested.cache, v, (key, type) :: nested.started⟩ where
  hit w hw := by simp [h] at hw
  earlier _ w hw := by rw [Option.some.inj (hleft.symm.trans hw)]
  computed _ hnone := by simp [hleft] at hnone
  get?_eq := hleft
  others _ _ := by rw [left_of_miss h]
  size_eq := by rw [left_of_miss h, if_pos (ElementsCache.isSome_of_get? hleft), Nat.add_zero]
  keys := nested.cache.exists_keys

/-- A call after a miss, when the nested calls have left no value either. -/
theorem coherent_of_computed (h : c.get? key type = none) {nested : CacheRun ι β type}
    (hleft : nested.cache.get? key type = none) :
    Coherent c key type nested ⟨nested.cache.insert key type nested.value, nested.value,
      (key, type) :: nested.started⟩ where
  hit w hw := by simp [h] at hw
  earlier _ w hw := by simp [hleft] at hw
  computed _ _ := ⟨rfl, rfl, ElementsCache.getElem?_insert_self _ _ _ _⟩
  get?_eq := ElementsCache.get?_insert_self _ _ _ _
  others _ hother := by rw [left_of_miss h, ElementsCache.getElem?_insert_of_ne hother]
  size_eq := by rw [left_of_miss h, ElementsCache.size_insert]
  keys := ElementsCache.exists_keys _

theorem outcome_call_of_miss (h : c.get? key type = none) (init : CacheProgram ι β type) :
    (call key type init).outcome c =
      let settled := ElementsCache.settled key type ((init.outcome c).cache, (init.outcome c).value)
      ⟨settled.1, settled.2, (key, type) :: (init.outcome c).started⟩ := by
  rw [call, outcome_of_miss h]
  simp only [outcome_done, CacheRun.followedBy, List.append_nil]

/-- A computation that goes on after a call goes on with its value and the cache that it leaves. -/
theorem outcome_getOrInsert (init : CacheProgram ι β type) (next : β type → CacheProgram ι β t) :
    (getOrInsert key type init next).outcome c =
      ((call key type init).outcome c).followedBy
        ((next ((call key type init).outcome c).value).outcome
          ((call key type init).outcome c).cache) := by
  cases h : c.get? key type with
  | some v =>
    rw [call, outcome_of_hit h, outcome_of_hit h]
    rfl
  | none =>
    rw [outcome_of_miss h, outcome_call_of_miss h]

/-- A call keeps its contract: the value is there, the nested calls leave one, or it is computed. -/
theorem coherent_call (c : ElementsCache ι β) (key : String) (type : ι)
    (init : CacheProgram ι β type) :
    Coherent c key type (init.outcome c) ((call key type init).outcome c) := by
  cases h : c.get? key type with
  | some v =>
    rw [call, outcome_of_hit h]
    exact coherent_of_hit h _
  | none =>
    rw [outcome_call_of_miss h]
    cases hleft : (init.outcome c).cache.get? key type with
    | some v =>
      simp only [ElementsCache.settled, hleft]
      exact coherent_of_earlier h hleft
    | none =>
      simp only [ElementsCache.settled, hleft]
      exact coherent_of_computed h hleft

/-- Of an initialiser a call needs only what it makes of the cache. -/
theorem getOrInsertWith_eq_call (c : ElementsCache ι β) (key : String) (type : ι)
    (init : CacheProgram ι β type) :
    c.getOrInsertWith key type (fun c ↦ ((init.outcome c).cache, (init.outcome c).value)) =
      (((call key type init).outcome c).cache, ((call key type init).outcome c).value) := by
  cases h : c.get? key type with
  | some v =>
    rw [call, outcome_of_hit h, ElementsCache.getOrInsertWith,
      ElementsCache.getOrInsertWithM_of_some h]
    rfl
  | none =>
    rw [outcome_call_of_miss h, ElementsCache.getOrInsertWith,
      ElementsCache.getOrInsertWithM_of_none h]
    rfl

/-- Whatever cache calls an initialiser makes, under any keys and types and nested to any depth, the
call it belongs to keeps its contract, what comes after sees only the value and the cache that the
call leaves, and a call whose initialiser has no effect but on the cache does just this. -/
theorem coherent (c : ElementsCache ι β) (key : String) (type : ι) (init : CacheProgram ι β type) :
    Coherent c key type (init.outcome c) ((call key type init).outcome c) ∧
      (∀ {t : ι} (next : β type → CacheProgram ι β t),
        (getOrInsert key type init next).outcome c =
          ((call key type init).outcome c).followedBy
            ((next ((call key type init).outcome c).value).outcome
              ((call key type init).outcome c).cache)) ∧
      c.getOrInsertWith key type (fun c ↦ ((init.outcome c).cache, (init.outcome c).value)) =
        (((call key type init).outcome c).cache, ((call key type init).outcome c).value) :=
  ⟨coherent_call c key type init, fun next ↦ outcome_getOrInsert init next,
    getOrInsertWith_eq_call c key type init⟩

/-- The initialiser replaces its own entry by a value of another type and then has one of the right
type computed, which is returned in place of its result. -/
example :
    let init : CacheProgram Bool (fun _ ↦ Nat) true :=
      .getOrInsert "title" false (.done 7) fun x ↦
        .getOrInsert "title" true (.done (x + 1)) fun y ↦ .done (y + 10)
    let r := (call "title" true init).outcome .empty
    r.value = 8 ∧ r.started = [("title", true), ("title", false), ("title", true)] ∧
      r.cache.size = 1 := by
  decide +kernel

end CacheProgram

end VersionedContent
