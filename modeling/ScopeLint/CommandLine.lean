import ScopeLint.Session

/-!
# Command line

`check` analyses a file or folder and writes a report; `dump-tree` prints the outline of one unit.
Arguments that are not well-formed end a run with code 2, and every other failure with code 1. The
help, the version and the wording of wrong arguments are not part of the library; how options are
read is that of common command lines, written out here.
-/

namespace ScopeLint.CommandLine

/-! ## Arguments -/

/-- An option: its long name, perhaps a letter, and whether it has a value. -/
structure OptionForm where
  long : String
  letter : Option Char
  takesValue : Bool
  deriving DecidableEq, Repr

/-- An argument as it is given. -/
inductive Given where
  | flag (long : String)
  | value (long : String) (text : String)
  | positional (text : String)
  deriving DecidableEq, Repr

/-- What the letters behind a dash amount to. -/
inductive Letters where
  | complete (given : List Given)
  /-- The last of them is an option whose value is the next argument. -/
  | waiting (given : List Given) (long : String)
  | malformed
  deriving DecidableEq, Repr

/-- Reads letters behind a dash. The value of an option may follow its letter directly or behind an
equals sign. -/
def readLetters (forms : List OptionForm) : List Char → Letters
  | [] => .complete []
  | c :: rest =>
    match forms.find? (·.letter == some c) with
    | none => .malformed
    | some form =>
      if form.takesValue then
        match rest with
        | [] => .waiting [] form.long
        | '=' :: value => .complete [.value form.long (String.ofList value)]
        | value => .complete [.value form.long (String.ofList value)]
      else
        match readLetters forms rest with
        | .complete given => .complete (.flag form.long :: given)
        | .waiting given long => .waiting (.flag form.long :: given) long
        | .malformed => .malformed

/-- Whether an argument is an option or the end of options; a single dash is a value. -/
def looksLikeOption (arg : String) : Bool :=
  match arg.toList with
  | '-' :: _ :: _ => true
  | _ => false

/-- What a long option without an attached value is: a flag, or an option whose value is the next
argument. -/
def readLong (forms : List OptionForm) (name : List Char) : Letters :=
  let long := String.ofList (name.takeWhile (· != '='))
  match forms.find? (·.long == long), name.dropWhile (· != '=') with
  | none, _ => .malformed
  | some form, [] => if form.takesValue then .waiting [] long else .complete [.flag long]
  | some form, _ :: value =>
    if form.takesValue then .complete [.value long (String.ofList value)] else .malformed

/-- What an argument that looks like an option amounts to. -/
def readOption (forms : List OptionForm) (arg : String) : Letters :=
  match arg.toList with
  | '-' :: '-' :: name => readLong forms name
  | '-' :: letters => readLetters forms letters
  | _ => .malformed

/-- The arguments in order; behind `--` all of them are positional. An option whose value is missing
waits for it in `pending`. -/
def readArguments (forms : List OptionForm) : Option String → List String → Option (List Given)
  | none, [] => some []
  | some _, [] => none
  | some long, arg :: rest =>
    if looksLikeOption arg then none
    else (readArguments forms none rest).map (.value long arg :: ·)
  | none, arg :: rest =>
    if arg = "--" then some (rest.map .positional)
    else if looksLikeOption arg then
      match readOption forms arg with
      | .malformed => none
      | .complete given => (readArguments forms none rest).map (given ++ ·)
      | .waiting given long => (readArguments forms (some long) rest).map (given ++ ·)
    else (readArguments forms none rest).map (.positional arg :: ·)

/-! ## What was given -/

def positionals (given : List Given) : List String :=
  given.filterMap fun
    | .positional text => some text
    | _ => none

def valuesOf (given : List Given) (long : String) : List String :=
  given.filterMap fun
    | .value name text => if name = long then some text else none
    | _ => none

def flagsOf (given : List Given) (long : String) : Nat := given.count (.flag long)

/-- The value of an option that may be given once. -/
def once? : List String → Option (Option String)
  | [] => some none
  | [text] => some (some text)
  | _ => none

/-- A flag that may be given once. -/
def flag? (given : List Given) (long : String) : Option Bool :=
  match flagsOf given long with
  | 0 => some false
  | 1 => some true
  | _ => none

/-- A path that may be given once and must not be empty. -/
def path? (texts : List String) : Option (Option String) := do
  match ← once? texts with
  | some "" => none
  | path => some path

/-- A number that may be given once. -/
def number? (texts : List String) : Option (Option Nat) := do
  match ← once? texts with
  | none => some none
  | some text => (wordOfDigits? text.toList).map some

/-! ## Commands -/

inductive Command where
  | check (path : String) (settings : Settings)
  | dumpText (text : String)
  | dumpFile (path : String)
  deriving DecidableEq, Repr

def checkForms : List OptionForm := [
  ⟨"path", some 'p', true⟩, ⟨"rules", some 'r', true⟩, ⟨"output", some 'o', true⟩,
  ⟨"quiet", some 'q', false⟩, ⟨"verbose", some 'v', false⟩, ⟨"workers", some 'j', true⟩]

def dumpForms : List OptionForm := [⟨"path", none, true⟩]

/-- The path may be given as an option or by itself, but not both; the working folder is taken
without one. -/
def readCheck (args : List String) : Option Command := do
  let given ← readArguments checkForms none args
  let option ← path? (valuesOf given "path")
  let positional ← path? (positionals given)
  let path ← match option, positional with
    | some _, some _ => none
    | some path, none => some path
    | none, some path => some path
    | none, none => some "."
  let rules ← path? (valuesOf given "rules")
  let output ← path? (valuesOf given "output")
  let workers ← number? (valuesOf given "workers")
  let quiet ← flag? given "quiet"
  let verbose ← flag? given "verbose"
  return .check path {
    quiet := quiet
    verbose := verbose
    rulesPath := rules
    outputPath := output.getD Settings.standard.outputPath
    workers := workers
    extensions := Settings.standard.extensions }

/-- Either a text or the path of a file has to be given. -/
def readDump (args : List String) : Option Command := do
  let given ← readArguments dumpForms none args
  match ← once? (positionals given), ← path? (valuesOf given "path") with
  | some text, none => some (.dumpText text)
  | none, some path => some (.dumpFile path)
  | _, _ => none

/-- The command of the arguments, if they are well-formed. -/
def Command.read? : List String → Option Command
  | "check" :: args => readCheck args
  | "dump-tree" :: args => readDump args
  | _ => none

/-! ## Runs -/

/-- How a run ends: its exit code, what it prints, and what it complains of. -/
structure Outcome where
  exit : Nat
  output : String
  complaint : String
  files : Files
  deriving Repr

/-- A way to find out how many microseconds a computation takes. -/
structure Clock (m : Type → Type) where
  time : {α : Type} → (Unit → α) → m (α × Nat)

/-- The clock that stands still. -/
def Clock.stopped : Clock Id := ⟨fun f => (f (), 0)⟩

def succeed (files : Files) (output : String) : Outcome := ⟨0, output, "", files⟩

def fail (files : Files) (complaint : String) : Outcome :=
  ⟨1, "", "Error: " ++ complaint ++ "\n", files⟩

/-- Reads the units and rules of a check and makes the outlines. -/
def prepare (files : Files) (cores : Nat) (path : String) (settings : Settings) :
    Except Fault Session := do
  let s ← (Session.start settings).readPath files path
  let s ← s.readConfiguredRules files
  return (s.outlineAll cores).1

def runCheck {m : Type → Type} [Monad m] (clock : Clock m) (files : Files) (cores : Nat)
    (path : String) (settings : Settings) : m Outcome := do
  match prepare files cores path settings with
  | .error fault => return fail files fault.message
  | .ok s =>
    let (s, ruleMicros) ← clock.time fun _ => s.checkRules
    let (s, flowMicros) ← clock.time fun _ => s.checkFlow
    let s := { s with ruleMicros := ruleMicros, flowMicros := flowMicros }
    match s.writeReport files with
    | .error fault => return fail files fault.message
    | .ok files => return succeed files ""

/-- The outline of a unit, printed. -/
def dump (files : Files) (s : Source) : Outcome :=
  match Outline.ofSource s with
  | .ok o => succeed files o.dump
  | .error e => fail files (Fault.unbalanced s.name e).message

def runDumpFile (files : Files) (path : String) : Outcome :=
  match (files.read? path).bind Utf8.decode? with
  | some text => dump files (Source.ofText path text)
  | none => fail files (Fault.unreadableUnit path).message

def Command.run {m : Type → Type} [Monad m] (clock : Clock m) (files : Files) (cores : Nat) :
    Command → m Outcome
  | .check path settings => runCheck clock files cores path settings
  | .dumpText text => return dump files (Source.ofText "<source>" text.toList)
  | .dumpFile path => return runDumpFile files path

def usage : String :=
  "usage: check [PATH | -p PATH] [-r RULES] [-o OUTPUT] [-q] [-v] [-j WORKERS]\n" ++
    "       dump-tree (SOURCE_TEXT | --path FILE)\n"

/-- Runs the program on its arguments. -/
def run {m : Type → Type} [Monad m] (clock : Clock m) (files : Files) (cores : Nat)
    (args : List String) : m Outcome :=
  match Command.read? args with
  | some command => command.run clock files cores
  | none => return ⟨2, "", usage, files⟩

end ScopeLint.CommandLine
