import VersionedContent.Text.Blank
import VersionedContent.Text.Quoted

/-!
Options of a store: when snapshot creation starts a collection pass by itself, and the name given
to the collector. A name must not be blank and must not contain NUL.
-/

set_option autoImplicit false

namespace VersionedContent

/-- Ways in which a value supplied by the caller is unusable. -/
inductive Misuse
  | blankCollectorName
  | nulInCollectorName
  | shapelessTree
  | oversizedTree
  | nothingToChurn
deriving DecidableEq, Repr

/-- The full display text of a misuse. -/
def Misuse.message : Misuse → String
  | .blankCollectorName => "invalid argument: collector thread name is empty"
  | .nulInCollectorName => "invalid argument: collector thread name contains NUL"
  | .shapelessTree => "invalid argument: synthetic tree needs roots and depth"
  | .oversizedTree => "invalid argument: synthetic tree is too large"
  | .nothingToChurn => "invalid argument: churn needs at least one kit"

/-- When snapshot creation starts a collection pass by itself. -/
structure CollectOptions where
  /-- Whether it does at all. -/
  auto : Bool
  /-- The lag of the floor behind the live generation that must be exceeded. -/
  minGenDelta : Nat
deriving DecidableEq, Repr

/-- Automatic passes at a lag of more than four generations. -/
def CollectOptions.default : CollectOptions := ⟨true, 4⟩

/-- Options of a store. -/
structure StoreOptions where
  collect : CollectOptions
  collectorName : String
deriving DecidableEq, Repr

namespace StoreOptions

/-- The options of a store that asks for nothing else. -/
def default : StoreOptions := ⟨CollectOptions.default, "contentcache-collect"⟩

/-- Checks what the types alone do not express. -/
def validate (o : StoreOptions) : Except Misuse StoreOptions :=
  if Text.isBlank o.collectorName then .error .blankCollectorName
  else if '\x00' ∈ o.collectorName.toList then .error .nulInCollectorName
  else .ok o

/-- Diagnostic text of options, which also tells whether a metrics sink is set. -/
def describe (o : StoreOptions) (metrics : Bool) : String :=
  s!"StoreOptions \x7b collect: CollectCfg \x7b auto: {o.collect.auto}, " ++
    s!"min_gen_delta: {o.collect.minGenDelta} \x7d, " ++
    s!"collector_thread_name: {Text.quoted o.collectorName}, metrics: {metrics} \x7d"

end StoreOptions

end VersionedContent
