import VersionedContent.Store

/-!
Pages: what one request sees of the content store and of the media store behind a service. A page
pins one snapshot of each, and shows only nodes that have a payload for it: in preview any payload,
else a published one.
-/

set_option autoImplicit false

namespace VersionedContent

/-- The content store and the media store that pages read. -/
structure PublishedContent where
  content : ContentStore
  media : ContentStore

/-- The view of one request. -/
structure Page where
  content : Pin
  media : Pin
  /-- Whether drafts are visible. -/
  preview : Bool
deriving DecidableEq

namespace PublishedContent

/-- A service with two empty stores of the same options, if these are usable. -/
def create (options : StoreOptions) : Except Misuse PublishedContent := do
  let content ← ContentStore.create .content options
  let media ← ContentStore.create .media options
  return ⟨content, media⟩

/-- The activity counters of both stores together. -/
def metrics (s : PublishedContent) : Metrics := s.content.engine.metrics + s.media.engine.metrics

/-- Opens a page on the newest complete generation of each store. -/
def openPage (s : PublishedContent) (preview : Bool) : PublishedContent × Page :=
  let (content, contentPin) := s.content.snapshot
  let (media, mediaPin) := s.media.snapshot
  (⟨content, media⟩, ⟨contentPin, mediaPin, preview⟩)

/-- Closes a page, which gives up its two snapshots. -/
def closePage (s : PublishedContent) (p : Page) : PublishedContent :=
  ⟨s.content.release p.content, s.media.release p.media⟩

/-- The content tree as a page sees it. -/
def contentView (s : PublishedContent) (p : Page) : ContentView :=
  s.content.viewAt p.content.generation

/-- The media tree as a page sees it. -/
def mediaView (s : PublishedContent) (p : Page) : ContentView := s.media.viewAt p.media.generation

end PublishedContent

namespace Page

/-- The payload of a node that a page shows. -/
def data? (p : Page) (n : ContentNode) : Option ContentData := n.data? p.preview

/-- Whether a page shows a node. -/
def shows (p : Page) (n : ContentNode) : Bool := (p.data? n).isSome

/-- A node of a tree, if the page shows it. -/
def node? (p : Page) (v : ContentView) (id : ContentId) : Option ContentNode :=
  (v.node? id).filter p.shows

/-- The top-level nodes of a tree that the page shows, by sort order and id. -/
def atRoot (p : Page) (v : ContentView) : List ContentNode := v.atRoot.filter p.shows

/-- The children of a node that the page shows, by sort order and id. -/
def children (p : Page) (v : ContentView) (id : ContentId) : List ContentNode :=
  (v.children id).filter p.shows

end Page

end VersionedContent
