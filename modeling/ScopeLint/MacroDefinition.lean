import ScopeLint.Inert
import ScopeLint.Pattern.Heads

/-!
# Macro definitions

A macro definition starts at a `#define` outside comments and literals and runs on as long as its
lines end in a backslash. Its lines hold no structure of the unit.
-/

namespace ScopeLint

structure MacroDefinition where
  span : Span
  /-- Its lines, written one directly after the other. -/
  text : String
  deriving DecidableEq, Repr

namespace MacroDefinition

/-- Whether the next line continues this one. -/
def isContinued (line : Line) : Bool := (trimEnd line).getLast? == some '\\'

/-- The column of the `#define` that starts a definition on the line, if there is one. -/
def directive? (inert : Inert) (index : Nat) (line : Line) : Option Nat :=
  ((Pattern.directiveHead.matchLine line).bind (·.part? .keyword)).bind fun c =>
    if inert.covers ⟨index, c.start⟩ then none else some c.start

/-- The last column of a definition of one line: the end of the line, or of the code before the
comment that follows on it. -/
def lastColOn (inert : Inert) (index start : Nat) (line : Line) : Nat :=
  match inert.comments.toList.find? fun c => decide (⟨index, start⟩ < c.span.start) with
  | none => line.lastCol
  | some c =>
    if c.span.start.line = index then Line.lastCol (trimEnd (line.slice 0 c.span.start.col))
    else line.lastCol

/-- A definition whose last line is not reached: where it starts, and its text so far. -/
structure Begun where
  start : Position
  text : Line
  deriving DecidableEq, Repr

/-- The definitions that end on the lines from number `index` on. -/
def readLines (inert : Inert) : Option Begun → Nat → List Line → List MacroDefinition
  | _, _, [] => []
  | some b, index, line :: rest =>
    let text := b.text ++ line
    if isContinued line ∧ rest ≠ [] then readLines inert (some ⟨b.start, text⟩) (index + 1) rest
    else
      ⟨⟨b.start, ⟨index, line.lastCol⟩⟩, String.ofList text⟩ ::
        readLines inert none (index + 1) rest
  | none, index, line :: rest =>
    match directive? inert index line with
    | none => readLines inert none (index + 1) rest
    | some col =>
      if isContinued line ∧ rest ≠ [] then
        readLines inert (some ⟨⟨index, col⟩, line⟩) (index + 1) rest
      else
        ⟨Span.onLine index col (max (lastColOn inert index col line) col), String.ofList line⟩ ::
          readLines inert none (index + 1) rest

/-- The definitions of a unit, in order. -/
def ofSource (s : Source) (inert : Inert) : List MacroDefinition := readLines inert none 0 s.lines

/-! ## The lines they take -/

/-- A run of lines, both ends included. -/
structure LineRun where
  first : Nat
  last : Nat
  deriving DecidableEq, Repr

def lineRun (d : MacroDefinition) : LineRun := ⟨d.span.start.line, d.span.stop.line⟩

/-- The run that holds a line, among sorted runs that do not overlap. -/
def runAt? (runs : Array LineRun) (line : Nat) : Option LineRun :=
  (lastInFront? (fun run => run.first ≤ line) runs).filter (line ≤ ·.last)

end MacroDefinition

end ScopeLint
