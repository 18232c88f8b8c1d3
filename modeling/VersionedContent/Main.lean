import VersionedContent.CommandLine.Session
import VersionedContent.Text.Utf8
import Std.Time.DateTime

/-!
The program: it reads its arguments and the files they name, runs the command, writes its file, and
prints the result.
-/

set_option autoImplicit false

namespace VersionedContent.CommandLine

/-- Finds out what stands under a file name. -/
def readFile (path : String) : IO FileContent := do
  match ← (IO.FS.Handle.mk path .read).toBaseIO with
  | .error _ => return .missing
  | .ok handle =>
    match ← handle.readBinToEnd.toBaseIO with
    | .error _ => return .directory
    | .ok bytes => return .text (Text.decode bytes.toList)

/-- Writes a text to a file, and tells whether that was possible. -/
def writeFile (path text : String) : IO Bool := do
  match ← (IO.FS.writeFile path text).toBaseIO with
  | .error _ => return false
  | .ok _ => return true

/-- The present time, at universal time. -/
def now : IO Timestamp := do
  let t := Std.Time.PlainDateTime.ofWallTime ((← Std.Time.Timestamp.now).toWallTime .zero)
  return {
    year := t.date.year.toInt.toNat
    month := t.date.month.toInt.toNat
    day := t.date.day.toInt.toNat
    hour := t.time.hour.toInt.toNat
    minute := t.time.minute.toInt.toNat
    second := t.time.second.toInt.toNat
    nanosecond := t.time.nanosecond.toInt.toNat
    offset := 0 }

/-- Random keys and the present time. -/
def newMint : IO Mint := do
  let seed := (← IO.getRandomBytes 16).toList.foldl (fun n b ↦ 256 * n + b.toNat) 0
  let now ← now
  return ⟨fun id ↦ .ofRandom (seed + id.val.toNat * 0x9e3779b97f4a7c15f39cc0605cedc835), now⟩

/-- What a command finds around it: of all files those that it names. -/
def surroundings (invocation : Invocation) : IO Surroundings := do
  let files ← invocation.files.mapM fun path ↦ do return (path, ← readFile path)
  return ⟨fun path ↦ (files.lookup path).getD .missing, ← newMint⟩

/-- Runs a command, writes its file and prints its result; gives the exit code. -/
def execute (invocation : Invocation) : IO UInt32 := do
  let surroundings ← surroundings invocation
  let start ← IO.monoNanosNow
  let result ← match surroundings.run invocation with
    | .error e => pure (.error e)
    | .ok result =>
      match result.file? with
      | none => pure (.ok result)
      | some (path, text) => pure (result.settled (← writeFile path text))
  match result with
  | .error e =>
    IO.eprintln s!"error: {e.message}"
    return 1
  | .ok result =>
    let micros := ((← IO.monoNanosNow) - start) / 1000
    IO.print (result.render invocation.format ⟨micros / 1000, micros⟩)
    return result.exitCode

end VersionedContent.CommandLine

/-- The program. -/
def main (args : List String) : IO UInt32 := do
  match VersionedContent.CommandLine.parse args with
  | .error halt =>
    IO.print halt.text
    if halt = .mistake then IO.eprint VersionedContent.CommandLine.usageText
    return halt.exitCode
  | .ok invocation => VersionedContent.CommandLine.execute invocation
