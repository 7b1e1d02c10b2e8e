import ScopeLint.Batch
import ScopeLint.Fault
import ScopeLint.Files
import ScopeLint.Report
import ScopeLint.Rule.Check
import ScopeLint.RuleFile
import ScopeLint.Settings

/-!
# Sessions

A session reads units and rules, makes the outlines of the units, checks them, and reports. Its
steps may come in any order and any number of times. Nothing is logged. The caller measures how long
the checks take, and says how many workers there are where the settings do not.
-/

namespace ScopeLint

structure Session where
  settings : Settings
  units : List Source
  /-- How many files could not be read. -/
  unreadable : Nat
  book : Rulebook
  outlines : UnitMap Outline
  ruleFindings : UnitMap Findings
  ruleMicros : Nat
  flowFindings : UnitMap Findings
  flowMicros : Nat
  deriving Repr

namespace Session

def start (settings : Settings) : Session := ⟨settings, [], 0, ∅, ∅, ∅, 0, ∅, 0⟩

/-! ## Reading units -/

def readUnit (s : Session) (unit : Source) : Session := { s with units := s.units ++ [unit] }

/-- Reads a file below a folder if it is a unit; a unit that cannot be read is only counted. -/
def readBelow (path : String) (s : Session) (found : Place × Entry) : Session :=
  match (found.1.getLast?.bind Files.extension?).any s.settings.accepts, found.2 with
  | true, .file bytes => s.readUnit (Source.ofBytes (Files.joinPath path found.1) bytes)
  | true, _ => { s with unreadable := s.unreadable + 1 }
  | false, _ => s

/-- Reads a file, whatever its name, or all units below a folder. -/
def readPath (s : Session) (files : Files) (path : String) : Except Fault Session :=
  match files.placeOf? path with
  | none => .error (.unreadableUnit path)
  | some place =>
    match files.entryAt? place with
    | some (.file bytes) => .ok (s.readUnit (Source.ofBytes path bytes))
    | some .folder => .ok ((files.filesBelow place).foldl (readBelow path) s)
    | _ => .error (.unreadableUnit path)

/-! ## Reading rules -/

def useRules (s : Session) (book : Rulebook) : Session := { s with book := book }

/-- Takes the rules of a text, which is reported as `origin` if it is no rule file. -/
def readRules (s : Session) (origin : String) (text : List Char) : Except Fault Session :=
  match RuleFile.rulebook? text with
  | some book => .ok (s.useRules book)
  | none => .error (.malformedRules origin)

/-- Takes the rules of a file, which has to be well-formed UTF-8. -/
def readRuleFile (s : Session) (files : Files) (path : String) : Except Fault Session :=
  match (files.read? path).bind Utf8.decode? with
  | some text => s.readRules path text
  | none => .error (.malformedRules path)

/-- Takes the rules of the file that the settings name, if they name one. -/
def readConfiguredRules (s : Session) (files : Files) : Except Fault Session :=
  match s.settings.rulesPath with
  | some path => s.readRuleFile files path
  | none => .ok s

/-! ## Outlines -/

/-- The outlines of all units and how many units there are, when the results of the units come in
in the order of `arrivals`. -/
def outlineAs (s : Session) (arrivals : List Source) : Session × Tally :=
  let gathered := Batch.gather arrivals
  ({ s with outlines := gathered.outlines },
    ⟨arrivals.length + s.unreadable, gathered.failed + s.unreadable⟩)

/-- The outlines of all units, worked off chunk by chunk. -/
def outlineAll (s : Session) (cores : Nat) : Session × Tally :=
  s.outlineAs (Batch.chunks (s.settings.workerCount cores) s.units).flatten

/-! ## Checks -/

/-- Drops duplicate rules and applies the others to every outline. -/
def checkRules (s : Session) : Session :=
  let book := s.book.deduplicate
  { s with book := book, ruleFindings := s.outlines.map book.check }

def checkFlow (s : Session) : Session := { s with flowFindings := s.outlines.map Flow.check }

/-! ## Reporting -/

def report (s : Session) : Report where
  book := s.book
  ruleFindings := s.ruleFindings
  ruleMicros := s.ruleMicros
  flowFindings := s.flowFindings
  flowMicros := s.flowMicros

/-- The files with the report at the path that the settings name. -/
def writeReport (s : Session) (files : Files) : Except Fault Files :=
  match files.write? s.settings.outputPath (Utf8.encode s.report.text.toList) with
  | some files => .ok files
  | none => .error (.unwritableReport s.settings.outputPath)

/-- Forgets everything but the settings. -/
def clear (s : Session) : Session := start s.settings

end Session

end ScopeLint
