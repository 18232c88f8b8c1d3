import VersionedContent.Synthetic

/-!
The arguments of the program. Options with two dashes stand before or after the command's name;
those that say which store options and which output format to use may stand on either side of it,
and the one after it wins. A value follows its option as the next argument or behind an equals sign.
Two dashes alone end the options. Arguments are read from left to right, and the first one that
decides the request, by a mistake or by asking for the version or the usage, ends the reading.
-/

set_option autoImplicit false

namespace VersionedContent.CommandLine

/-- Form of what is printed. -/
inductive OutputFormat
  | text
  | json
deriving DecidableEq, Repr

/-- The format of a name. -/
def OutputFormat.ofName? (name : String) : Option OutputFormat :=
  [("text", OutputFormat.text), ("json", OutputFormat.json)].lookup name

/-- What the program is to do. -/
inductive Command
  /-- Load a dump and report what was applied. -/
  | load (dump : String)
  /-- Print the tree of a dump, down to a number of levels. -/
  | tree (dump : String) (preview : Bool) (maxDepth : Option Nat)
  /-- Load a dump, collect, and print statistics. -/
  | stats (dump : String)
  /-- Write the dump of a generated tree to a file. -/
  | generate (out : String) (shape : SyntheticTree)
  /-- Keep a store busy with a dump or a generated tree. -/
  | churn (dump : Option String) (shape : SyntheticTree) (rounds readers seed : Nat)
deriving DecidableEq

/-- A command with the options that every command has. -/
structure Invocation where
  /-- File of store options. -/
  config : Option String
  format : OutputFormat
  command : Command
deriving DecidableEq

/-- The file that a command reads. -/
def Command.file? : Command → Option String
  | .load dump | .tree dump _ _ | .stats dump => some dump
  | .generate _ _ => none
  | .churn dump _ _ _ _ => dump

/-- The files that an invocation reads. -/
def Invocation.files (i : Invocation) : List String := i.config.toList ++ i.command.file?.toList

/-- Why no command is run. -/
inductive Halt
  /-- The arguments make no sense. -/
  | mistake
  /-- The version is asked for. -/
  | version
  /-- The usage is asked for. -/
  | usage
deriving DecidableEq, Repr

/-- The digits of a number that a text consists of, but for one sign in front. -/
def unsigned? (s : String) : Option Nat :=
  match s.toList with
  | '+' :: digits => number? digits
  | digits => number? digits
where
  /-- The number that is written with at least one digit and nothing else. -/
  number? (digits : List Char) : Option Nat :=
    if digits.isEmpty then none
    else digits.foldlM (fun n c ↦ if c.isDigit then some (10 * n + (c.toNat - 48)) else none) 0

/-- A number below some limit. -/
def bounded? (limit : Nat) (s : String) : Option Nat := (unsigned? s).filter (· < limit)

/-- A number of 32 bits. A zero may have a minus sign. -/
def word? (s : String) : Option UInt32 :=
  let n := match s.toList with
    | '-' :: digits => (unsigned?.number? digits).filter (· = 0)
    | _ => bounded? UInt32.size s
  n.map UInt32.ofNat

/-- What may be given with an option. -/
inductive OptionKind
  /-- Nothing. -/
  | flag
  /-- Nothing, and the request is decided by it. -/
  | halt (h : Halt)
  /-- A value that passes a test. -/
  | value (accepts : String → Bool)

/-- What may be given at one place of the command line: before the command's name, or after it. -/
structure Grammar where
  options : List (String × OptionKind)
  /-- One-letter options. Each of them decides the request. -/
  letters : List (Char × Halt)
  /-- Number of arguments that are no options. -/
  operands : Nat
  /-- Names at which the reading stops. -/
  commands : List String

/-- What has been given at one place of the command line. -/
structure Given where
  /-- Options with their values, the last one first. -/
  options : List (String × String)
  operands : List String

namespace Given

/-- Nothing given. -/
def nothing : Given := ⟨[], []⟩

/-- The value of an option. -/
def value? (g : Given) (name : String) : Option String := g.options.lookup name

/-- One more option, which must not have been given before. -/
def addOption (g : Given) (name value : String) : Except Halt Given :=
  if (g.value? name).isSome then .error .mistake
  else .ok { g with options := (name, value) :: g.options }

/-- One more argument that is no option, if the grammar has a place for it. -/
def addOperand (grammar : Grammar) (g : Given) (arg : String) : Except Halt Given :=
  if g.operands.length < grammar.operands ∧ arg ≠ "" then
    .ok { g with operands := g.operands ++ [arg] }
  else .error .mistake

end Given

/-- An argument by its first characters. -/
inductive Shape
  /-- Two dashes. -/
  | endOfOptions
  /-- An option, with the value behind its equals sign. -/
  | long (name : String) (attached : Option String)
  /-- One-letter options. -/
  | letters (cs : List Char)
  | operand

/-- Splits an argument into its name and what is behind its first equals sign. -/
def splitAttached (cs : List Char) : String × Option String :=
  (String.ofList (cs.takeWhile (· ≠ '=')),
    match cs.dropWhile (· ≠ '=') with
    | [] => none
    | _ :: value => some (String.ofList value))

/-- The shape of an argument. A dash alone is not an option. -/
def shape (arg : String) : Shape :=
  match arg.toList with
  | ['-', '-'] => .endOfOptions
  | '-' :: '-' :: rest => .long (splitAttached rest).1 (splitAttached rest).2
  | ['-'] => .operand
  | '-' :: rest => .letters rest
  | _ => .operand

/-- Whether an argument can be the value of the option before it. -/
def isValue (arg : String) : Bool := shape arg matches .operand

/-- The option with a value that passes the test of its kind. -/
def checked (kind : OptionKind) (g : Given) (name value : String) : Except Halt Given :=
  match kind with
  | .value accepts => if accepts value then g.addOption name value else .error .mistake
  | _ => .error .mistake

/-- Reads arguments up to a command's name; gives what is left from there on. -/
def scan (grammar : Grammar) (g : Given) : List String → Except Halt (Given × List String)
  | [] => .ok (g, [])
  | arg :: rest =>
    match shape arg with
    | .endOfOptions => do return (← rest.foldlM (Given.addOperand grammar) g, [])
    | .letters [] => .error .mistake
    | .letters (c :: _) => .error ((grammar.letters.lookup c).getD .mistake)
    | .operand =>
      if arg ∈ grammar.commands then .ok (g, arg :: rest)
      else do scan grammar (← g.addOperand grammar arg) rest
    | .long name attached =>
      match grammar.options.lookup name, attached, rest with
      | none, _, _ => .error .mistake
      | some .flag, none, rest => do scan grammar (← g.addOption name "") rest
      | some (.halt h), none, _ => .error h
      | some kind, some value, rest => do scan grammar (← checked kind g name value) rest
      | some (.value _), none, [] => .error .mistake
      | some kind, none, value :: rest => do
        if isValue value then scan grammar (← checked kind g name value) rest
        else .error .mistake

/-- A file name. -/
def fileName : OptionKind := .value (· ≠ "")

/-- A number of 32 bits. -/
def word : OptionKind := .value fun s ↦ (word? s).isSome

/-- A number of 64 bits. -/
def doubleWord : OptionKind := .value fun s ↦ (bounded? UInt64.size s).isSome

/-- Options that every command has. -/
def sharedOptions : List (String × OptionKind) := [
  ("config", fileName),
  ("format", .value fun s ↦ (OutputFormat.ofName? s).isSome),
  ("help", .halt .usage)]

/-- Options of the shape of a generated tree. -/
def shapeOptions : List (String × OptionKind) := [("roots", word), ("fanout", word), ("depth", word)]

/-- What may be given after the name of each command. -/
def grammars : List (String × Grammar) := [
  ("load", ⟨sharedOptions, [('h', .usage)], 1, []⟩),
  ("tree", ⟨("preview", .flag) :: ("max-depth", word) :: sharedOptions, [('h', .usage)], 1, []⟩),
  ("stats", ⟨sharedOptions, [('h', .usage)], 1, []⟩),
  ("generate", ⟨("out", fileName) :: shapeOptions ++ sharedOptions, [('h', .usage)], 0, []⟩),
  ("churn", ⟨("dump", fileName) :: ("rounds", word) :: ("readers", doubleWord) ::
    ("seed", doubleWord) :: shapeOptions ++ sharedOptions, [('h', .usage)], 0, []⟩)]

/-- What may be given before the name of the command. -/
def outerGrammar : Grammar :=
  ⟨("version", .halt .version) :: sharedOptions, [('V', .version), ('h', .usage)], 0,
    grammars.map Prod.fst⟩

/-- A number given with an option, or its default value. -/
def Given.word (g : Given) (name : String) (default : UInt32) : UInt32 :=
  ((g.value? name).bind word?).getD default

/-- A number of up to 64 bits given with an option, or its default value. -/
def Given.number (g : Given) (name : String) (default : Nat) : Nat :=
  ((g.value? name).bind unsigned?).getD default

/-- The shape of the tree to be generated. -/
def Given.shape (g : Given) : SyntheticTree := ⟨g.word "roots" 3, g.word "fanout" 4, g.word "depth" 3⟩

/-- The command of a name, if nothing it needs is missing. -/
def Given.command? (g : Given) (name : String) : Option Command :=
  match name, g.operands with
  | "load", [dump] => some (.load dump)
  | "tree", [dump] =>
    some (.tree dump (g.value? "preview").isSome
      (((g.value? "max-depth").bind word?).map UInt32.toNat))
  | "stats", [dump] => some (.stats dump)
  | "generate", [] => (g.value? "out").map (.generate · g.shape)
  | "churn", [] =>
    some (.churn (g.value? "dump") g.shape (g.word "rounds" 1000).toNat (g.number "readers" 4)
      (g.number "seed" 42))
  | _, _ => none

/-- Reads the arguments of the program. -/
def parse (args : List String) : Except Halt Invocation := do
  match ← scan outerGrammar Given.nothing args with
  | (_, []) => .error .mistake
  | (outer, name :: rest) =>
    match grammars.lookup name with
    | none => .error .mistake
    | some grammar =>
      let (inner, _) ← scan grammar Given.nothing rest
      let shared (option : String) := (inner.value? option).or (outer.value? option)
      match inner.command? name with
      | none => .error .mistake
      | some command =>
        return ⟨shared "config",
          ((shared "format").bind OutputFormat.ofName?).getD .text, command⟩

end VersionedContent.CommandLine
