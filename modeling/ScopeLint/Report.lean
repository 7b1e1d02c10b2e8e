import ScopeLint.Flow
import ScopeLint.Rule
import ScopeLint.Sort
import ScopeLint.Text.Natural
import ScopeLint.UnitMap

/-!
# Reports

The text of all findings of a run: those of the rules, then those of the flow checks, by unit and
then by rule or check.
-/

namespace ScopeLint

/-- The findings of a run with the rules that made them and the time it took, in microseconds. -/
structure Report where
  book : Rulebook
  ruleFindings : UnitMap Findings
  ruleMicros : Nat
  flowFindings : UnitMap Findings
  flowMicros : Nat
  deriving Repr

namespace Report

/-- The name and the description that findings stand under. -/
structure Heading where
  name : String
  description : String
  deriving DecidableEq, Repr

def ruleHeading (book : Rulebook) (id : Nat) : Heading :=
  match book.get? id with
  | some r => ⟨r.name, r.description⟩
  | none => ⟨s!"Rule {id}", ""⟩

def flowHeading (id : Nat) : Heading :=
  match Flow.checks.find? (·.id == id) with
  | some c => ⟨c.name, c.description⟩
  | none => ⟨s!"Check {id}", ""⟩

/-- The lines of one heading and its findings. -/
def groupLines (heading : Nat → Heading) (group : Nat × List Finding) : List String :=
  if group.2.isEmpty then []
  else
    s!"  {(heading group.1).name} -- {(heading group.1).description}" ::
      group.2.map fun f => s!"    {f.text}"

/-- The lines of one unit. -/
def unitLines (heading : Nat → Heading) (entry : String × Findings) : List String :=
  s!"+ {entry.1} ----------" :: entry.2.groups.flatMap (groupLines heading)

/-- The units with findings, in the order `le`; those that precede each other are in the order of
their names. -/
def unitsInOrder (le : String → String → Bool) (units : UnitMap Findings) :
    List (String × Findings) :=
  sortBy (fun a b => le a.1 b.1) (units.entries.filter fun entry => !entry.2.isEmpty)

def sectionLines (le : String → String → Bool) (units : UnitMap Findings)
    (heading : Nat → Heading) : List String :=
  (unitsInOrder le units).flatMap (unitLines heading)

/-- The lines of a report with the units in the order `le`. -/
def linesBy (le : String → String → Bool) (r : Report) : List String :=
  sectionLines le r.ruleFindings (ruleHeading r.book) ++
    s!"Syntax Ran in {r.ruleMicros / 1000}ms" ::
      (sectionLines le r.flowFindings flowHeading ++ [s!"Flow Ran in {r.flowMicros / 1000}ms"])

/-- The text of a report with the units in the order `le`. A line feed ends each line. -/
def textBy (le : String → String → Bool) (r : Report) : String :=
  String.join ((r.linesBy le).map (· ++ "\n"))

/-- The text of a report with the units in natural order. -/
def text (r : Report) : String := r.textBy Natural.le

end Report

end ScopeLint
