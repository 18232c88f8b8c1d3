import VersionedContent.CommandLine.Session

/-!
Trees of files held in memory, as the surroundings of a command. A path is walked step by step from
the root or from the home directory, and every step but the last has to lead to a directory.
-/

set_option autoImplicit false

namespace VersionedContent.CommandLine

/-- Files by their names from the root. The directories are those on the way to a file or to the
home directory. -/
structure FileTree where
  files : List (List String × String)
  /-- Where paths begin that do not begin at the root. -/
  home : List String

namespace FileTree

/-- Whether a directory stands at a place. -/
def isDirectory (t : FileTree) (place : List String) : Bool :=
  place.isPrefixOf t.home || t.files.any fun (p, _) ↦ place.isPrefixOf p && place != p

/-- The place that a step leads to. A name has at most 255 bytes. -/
def step? (t : FileTree) (here : List String) (name : String) : Option (List String) :=
  if !t.isDirectory here then none
  else if name == "" || name == "." then some here
  else if name == ".." then some here.dropLast
  else if name.utf8ByteSize ≤ 255 then some (here ++ [name])
  else none

/-- The place that a path leads to. A path has at least one byte and less than 4096. -/
def place? (t : FileTree) (path : String) : Option (List String) :=
  if path == "" || decide (4096 ≤ path.utf8ByteSize) then none
  else (path.splitToList (· == '/')).foldlM t.step? (if path.startsWith "/" then [] else t.home)

/-- The text of the file at the end of a path. -/
def text? (t : FileTree) (path : String) : Option String := do
  t.files.lookup (← t.place? path)

/-- What stands at the end of a path. -/
def content (t : FileTree) (path : String) : FileContent :=
  match t.text? path with
  | some text => .text (Json.glyphs text)
  | none => if (t.place? path).any t.isDirectory then .directory else .missing

/-- The tree with a text at the end of a path, in place of one that stands there. -/
def write? (t : FileTree) (path text : String) : Option FileTree := do
  let place ← t.place? path
  if t.isDirectory place then none else some { t with files := (place, text) :: t.files }

/-- Runs a command, and writes its file; gives its result and the tree after it. -/
def run (t : FileTree) (mint : Mint) (invocation : Invocation) :
    Except Failure Result × FileTree :=
  match (Surroundings.mk t.content mint).run invocation with
  | .error e => (.error e, t)
  | .ok result =>
    match result.file? with
    | none => (.ok result, t)
    | some (path, text) =>
      match t.write? path text with
      | some t => (result.settled true, t)
      | none => (result.settled false, t)

end FileTree

end VersionedContent.CommandLine
