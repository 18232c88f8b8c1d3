import VersionedContent.Proofs.TableSimulation
import VersionedContent.Proofs.VersionReads
import VersionedContent.Store

/-!
# What a writer sees and what it leaves alone

A writer of versioned tables sees plain tables: every operation gives the answer that it gives on
the plain tables of the writer's view, and leaves the plain tables that it would leave there
(`ContentWriter.run_follows`). It leaves the tables of every generation before its own as they were.
-/

set_option autoImplicit false

namespace VersionedContent

/-! ### Replacing the live view of one table -/

namespace VersionMap

variable {κ α : Type} [Ord κ] [Std.TransOrd κ]

/-- A table that shows the live generation other entries, and every earlier one those of before. -/
structure Replaces (live : Generation) (before after : VersionMap κ α)
    (view : Std.ExtTreeMap κ α) : Prop where
  headsLE : after.HeadsLE live
  liveView_eq : after.liveView = view
  past_eq : ∀ generation, generation < live → after.viewAt generation = before.viewAt generation

variable [Std.LawfulEqOrd κ] {m after : VersionMap κ α} {live : Generation}

omit [Std.LawfulEqOrd κ] in
theorem replaces_refl (h : m.HeadsLE live) : Replaces live m m m.liveView :=
  ⟨h, rfl, fun _ _ ↦ rfl⟩

/-- A change that the generations from the live one on see replaces the live view. -/
theorem replaces_of_viewAt (h : m.HeadsLE live) (hafter : after.HeadsLE live)
    (change : Std.ExtTreeMap κ α → Std.ExtTreeMap κ α)
    (hview : ∀ generation, after.viewAt generation =
      if live ≤ generation then change (m.viewAt generation) else m.viewAt generation) :
    Replaces live m after (change m.liveView) := by
  refine ⟨hafter, ?_, fun generation hlt ↦ ?_⟩
  · have hlive := hview live
    rwa [if_pos (Nat.le_refl live), viewAt_eq_liveView hafter (Nat.le_refl live),
      viewAt_eq_liveView h (Nat.le_refl live)] at hlive
  · exact (hview generation).trans (if_neg (Nat.not_le.mpr hlt))

theorem replaces_set (h : m.HeadsLE live) (key : κ) (value : α) :
    Replaces live m (m.set live key value) (m.liveView.insert key value) :=
  replaces_of_viewAt h (h.set value) (·.insert key value) fun _ ↦ viewAt_set h value

theorem replaces_clear (h : m.HeadsLE live) (key : κ) :
    Replaces live m (m.clear live key) (m.liveView.erase key) :=
  replaces_of_viewAt h h.clear (·.erase key) fun _ ↦ viewAt_clear h

theorem replaces_clearAll (h : m.HeadsLE live) : Replaces live m (m.clearAll live) ∅ :=
  replaces_of_viewAt h h.clearAll (fun _ ↦ ∅) fun _ ↦ viewAt_clearAll h

end VersionMap

/-! ### The four tables together -/

/-- No chain of any table has a version newer than a generation. -/
structure ContentHistory.HeadsLE (h : ContentHistory) (live : Generation) : Prop where
  nodes : h.nodes.HeadsLE live
  roots : h.roots.HeadsLE live
  types : h.types.HeadsLE live
  typesByHandle : h.typesByHandle.HeadsLE live

namespace ContentHistory

variable {h : ContentHistory} {live floor generation : Generation}

theorem headsLE_empty : empty.HeadsLE live :=
  ⟨VersionMap.headsLE_empty, VersionMap.headsLE_empty, VersionMap.headsLE_empty,
    VersionMap.headsLE_empty⟩

theorem HeadsLE.mono (hle : h.HeadsLE live) {later : Generation} (hlater : live ≤ later) :
    h.HeadsLE later :=
  ⟨hle.nodes.mono hlater, hle.roots.mono hlater, hle.types.mono hlater,
    hle.typesByHandle.mono hlater⟩

theorem HeadsLE.prune (hle : h.HeadsLE live) : (h.prune floor).HeadsLE live :=
  ⟨hle.nodes.prune, hle.roots.prune, hle.types.prune, hle.typesByHandle.prune⟩

theorem viewAt_empty : empty.viewAt generation = ContentView.empty := by
  simp only [viewAt, empty, ContentView.empty, VersionMap.viewAt_empty]

/-- The writer sees what the live generation and every later one sees. -/
theorem viewAt_eq_liveView (hle : h.HeadsLE live) (hgeneration : live ≤ generation) :
    h.viewAt generation = h.liveView := by
  simp only [viewAt, liveView, VersionMap.viewAt_eq_liveView hle.nodes hgeneration,
    VersionMap.viewAt_eq_liveView hle.roots hgeneration,
    VersionMap.viewAt_eq_liveView hle.types hgeneration,
    VersionMap.viewAt_eq_liveView hle.typesByHandle hgeneration]

/-- Pruning keeps the tables of every generation at or above the floor. -/
theorem viewAt_prune (hle : floor ≤ generation) :
    (h.prune floor).viewAt generation = h.viewAt generation := by
  simp only [viewAt, prune, VersionMap.viewAt_prune hle]

/-- Tables that show the live generation other entries, and every earlier one those of before. -/
structure Replaces (live : Generation) (before after : ContentHistory) (view : ContentView) :
    Prop where
  nodes : VersionMap.Replaces live before.nodes after.nodes view.nodes
  roots : VersionMap.Replaces live before.roots after.roots view.roots
  types : VersionMap.Replaces live before.types after.types view.types
  typesByHandle :
    VersionMap.Replaces live before.typesByHandle after.typesByHandle view.typesByHandle

theorem replaces_refl (hle : h.HeadsLE live) : Replaces live h h h.liveView :=
  ⟨VersionMap.replaces_refl hle.nodes, VersionMap.replaces_refl hle.roots,
    VersionMap.replaces_refl hle.types, VersionMap.replaces_refl hle.typesByHandle⟩

namespace Replaces

variable {after : ContentHistory} {view : ContentView}

theorem headsLE (hr : Replaces live h after view) : after.HeadsLE live :=
  ⟨hr.nodes.headsLE, hr.roots.headsLE, hr.types.headsLE, hr.typesByHandle.headsLE⟩

theorem liveView_eq (hr : Replaces live h after view) : after.liveView = view := by
  simp only [liveView, hr.nodes.liveView_eq, hr.roots.liveView_eq, hr.types.liveView_eq,
    hr.typesByHandle.liveView_eq]

theorem past_eq (hr : Replaces live h after view) (hlt : generation < live) :
    after.viewAt generation = h.viewAt generation := by
  simp only [viewAt, hr.nodes.past_eq generation hlt, hr.roots.past_eq generation hlt,
    hr.types.past_eq generation hlt, hr.typesByHandle.past_eq generation hlt]

end Replaces

end ContentHistory

/-! ### Following a writer on plain tables -/

namespace ContentWriter

/-- A later state of a writer, and the plain tables that the same operations lead to: the writer's
view is these tables, and earlier generations see what they saw at the start. -/
structure Follows (start w : ContentWriter) (l : LiveContent) : Prop where
  generation_eq : w.generation = start.generation
  headsLE : w.history.HeadsLE w.generation
  live_eq : w.live = l
  past_eq : ∀ generation, generation < w.generation →
    w.history.viewAt generation = start.history.viewAt generation

theorem follows_refl {w : ContentWriter} (h : w.history.HeadsLE w.generation) :
    Follows w w w.live :=
  ⟨rfl, h, rfl, fun _ _ ↦ rfl⟩

variable {start w : ContentWriter} {l : LiveContent}

/-- A write of the tables is followed by the write of plain tables that it comes to in the live
view. -/
theorem Follows.write (h : Follows start w l) {write : ContentHistory → ContentHistory}
    {plainly : ContentView → ContentView}
    (hwrite : w.history.HeadsLE w.generation → ContentHistory.Replaces w.generation w.history
      (write w.history) (plainly w.history.liveView)) :
    Follows start (w.modify write) (l.modify plainly) := by
  obtain rfl := h.live_eq
  have hreplaces := hwrite h.headsLE
  exact
    { generation_eq := h.generation_eq
      headsLE := hreplaces.headsLE
      live_eq := congrArg (LiveContent.mk · w.index) hreplaces.liveView_eq
      past_eq := fun generation hlt ↦
        (hreplaces.past_eq hlt).trans (h.past_eq generation hlt) }

/-- A writer and the plain tables of its view go through every edit alike. -/
theorem simulation_follows (start : ContentWriter) : TableSimulation (Follows start) where
  node? h id := by
    rw [← h.live_eq]
    exact (VersionMap.getElem?_liveView _ id).symm
  type? h id := by
    rw [← h.live_eq]
    exact (VersionMap.getElem?_liveView _ id).symm
  typeNamed? h handle := by
    rw [← h.live_eq]
    exact (VersionMap.getElem?_liveView _ handle).symm
  types h := by
    rw [← h.live_eq]
    rfl
  index h := by
    rw [← h.live_eq]
    rfl
  setIndex h i := ⟨h.generation_eq, h.headsLE, by rw [← h.live_eq]; rfl, h.past_eq⟩
  setNode h id n := h.write fun hle ↦ { ContentHistory.replaces_refl hle with
    nodes := VersionMap.replaces_set hle.nodes id n }
  clearNode h id := h.write fun hle ↦ { ContentHistory.replaces_refl hle with
    nodes := VersionMap.replaces_clear hle.nodes id }
  setRoot h id := h.write fun hle ↦ { ContentHistory.replaces_refl hle with
    roots := VersionMap.replaces_set hle.roots id () }
  clearRoot h id := h.write fun hle ↦ { ContentHistory.replaces_refl hle with
    roots := VersionMap.replaces_clear hle.roots id }
  clearTree h := h.write fun hle ↦ { ContentHistory.replaces_refl hle with
    nodes := VersionMap.replaces_clearAll hle.nodes
    roots := VersionMap.replaces_clearAll hle.roots }
  setType h id type := h.write fun hle ↦ { ContentHistory.replaces_refl hle with
    types := VersionMap.replaces_set hle.types id type }
  clearType h id := h.write fun hle ↦ { ContentHistory.replaces_refl hle with
    types := VersionMap.replaces_clear hle.types id }
  setHandle h handle type := h.write fun hle ↦ { ContentHistory.replaces_refl hle with
    typesByHandle := VersionMap.replaces_set hle.typesByHandle handle type }
  clearHandle h handle := h.write fun hle ↦ { ContentHistory.replaces_refl hle with
    typesByHandle := VersionMap.replaces_clear hle.typesByHandle handle }

/-- An operation of a writer gives the answer that it gives on the plain tables of the writer's
view, leaves the view that it leaves there, and no other generation sees any of it. -/
theorem run_follows {w : ContentWriter} (h : w.history.HeadsLE w.generation) (call : WriterCall) :
    Agree (Follows w) (call.run w) (call.run w.live) :=
  (simulation_follows w).run (follows_refl h) call

end ContentWriter

end VersionedContent
