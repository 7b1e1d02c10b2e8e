import ScopeLint.CommandLine
import ScopeLint.Proofs.Batch.Schedule
import ScopeLint.Proofs.Session.Reading

/-!
# How a check ends

A check that cannot read what it is to analyse, or the rules, leaves all files as they are. Any other
check writes the report of the units that have an outline, whether or not there are others.
-/

namespace ScopeLint.CommandLine

/-! ## Reports of units -/

/-- Findings for exactly those of the units that have an outline. -/
structure OfUnits (units : Source → Prop) (check : Outline → Findings)
    (found : UnitMap Findings) : Prop where
  sorted : found.Sorted
  get?_iff : ∀ name fs, found.get? name = some fs ↔
    ∃ u o, units u ∧ u.name = name ∧ Outline.ofSource u = .ok o ∧ fs = check o
  failed : ∀ u e, units u → Outline.ofSource u = .error e → found.get? u.name = none

/-- The report of the units at a path under the rules of a book. -/
structure IsReport (settings : Settings) (files : Files) (path : String) (book : Rulebook)
    (report : Report) : Prop where
  book_eq : report.book = book
  rules : OfUnits (Session.Reads settings files path) book.check report.ruleFindings
  flow : OfUnits (Session.Reads settings files path) Flow.check report.flowFindings

/-- How a check of a path ends. -/
structure Ends (files : Files) (path : String) (settings : Settings) (outcome : Outcome) :
    Prop where
  fatal : (¬files.Readable path ∨ ¬∃ rules, settings.HasRules files rules) →
    outcome.exit = 1 ∧ outcome.files = files
  written : files.Readable path → (∃ rules, settings.HasRules files rules) →
    files.Writable settings.outputPath →
    outcome.exit = 0 ∧ ∃ rules report, settings.HasRules files rules ∧
      IsReport settings files path (Rulebook.ofRules rules).deduplicate report ∧
      outcome.files.read? settings.outputPath = some (Utf8.encode report.text.toList)
  unwritable : ¬files.Writable settings.outputPath → outcome.exit = 1 ∧ outcome.files = files

end ScopeLint.CommandLine
