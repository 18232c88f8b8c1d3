import Std.Data.ExtTreeMap

/-!
A cache of computed values under string keys. A value has one of several types, and a value of
another type than the one asked for counts as absent. The computation of a value may itself use the
cache; what it leaves under the key wins over its own result.
-/

set_option autoImplicit false

namespace VersionedContent

/-- Values under string keys, each of one of the types `β`. -/
structure ElementsCache (ι : Type) (β : ι → Type) where
  entries : Std.ExtTreeMap String (Sigma β)

namespace ElementsCache

variable {ι : Type} [DecidableEq ι] {β : ι → Type}

/-- The cache without values. -/
def empty : ElementsCache ι β := ⟨∅⟩

/-- A stored value, if it has the type asked for. -/
def cast? (type : ι) : Sigma β → Option (β type)
  | ⟨stored, value⟩ => if h : stored = type then some (h ▸ value) else none

/-- The value under a key, if it has the type asked for. -/
def get? (c : ElementsCache ι β) (key : String) (type : ι) : Option (β type) :=
  c.entries[key]?.bind (cast? type)

/-- The cache with a value under a key. -/
def insert (c : ElementsCache ι β) (key : String) (type : ι) (value : β type) :
    ElementsCache ι β :=
  ⟨c.entries.insert key ⟨type, value⟩⟩

/-- The value under a key, computed when there is none of its type. The computation works on the
cache, and may have other effects; a value of the type that it leaves under the key is taken in
place of its result. -/
def getOrInsertWithM {m : Type → Type} [Monad m] (c : ElementsCache ι β) (key : String) (type : ι)
    (init : ElementsCache ι β → m (ElementsCache ι β × β type)) : m (ElementsCache ι β × β type) :=
  match c.get? key type with
  | some value => pure (c, value)
  | none => do
    let (c, value) ← init c
    match c.get? key type with
    | some earlier => pure (c, earlier)
    | none => pure (c.insert key type value, value)

/-- The value under a key, computed when there is none of its type, by a computation that works on
the cache alone. -/
def getOrInsertWith (c : ElementsCache ι β) (key : String) (type : ι)
    (init : ElementsCache ι β → ElementsCache ι β × β type) : ElementsCache ι β × β type :=
  Id.run (c.getOrInsertWithM key type fun c ↦ pure (init c))

/-- Number of keys with a value. -/
def size (c : ElementsCache ι β) : Nat := c.entries.size

/-- Whether no value is cached. -/
def isEmpty (c : ElementsCache ι β) : Bool := c.entries.isEmpty

/-- Diagnostic text of a cache. -/
def describe (c : ElementsCache ι β) : String := s!"ElementsCache \x7b len: {c.size} \x7d"

end ElementsCache

end VersionedContent
