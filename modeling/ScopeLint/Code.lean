import ScopeLint.MacroDefinition

/-!
# The code of a unit

What is left of a unit when comments, literals and macro definitions are known: its lines with the
comments blanked out, the lines that belong to macros, and the bytes outside comments and literals.
-/

namespace ScopeLint

/-- A byte and where it stands. -/
structure CodeByte where
  pos : Position
  byte : UInt8
  deriving DecidableEq, Repr

structure Code where
  source : Source
  inert : Inert
  macros : List MacroDefinition
  macroRuns : Array MacroDefinition.LineRun
  /-- The lines with their comments blanked out. -/
  lines : List Line
  /-- The bytes outside comments and literals, in reading order. -/
  bytes : List CodeByte

namespace Code

/-- The bytes of one line outside comments and literals, the first of them at `col`. -/
def lineBytes (inert : Inert) (line : Nat) : Nat → List UInt8 → List CodeByte
  | _, [] => []
  | col, b :: rest =>
    if inert.covers ⟨line, col⟩ then lineBytes inert line (col + 1) rest
    else ⟨⟨line, col⟩, b⟩ :: lineBytes inert line (col + 1) rest

/-- The bytes outside comments and literals of the lines from number `index` on. -/
def bytesFrom (inert : Inert) : Nat → List Line → List CodeByte
  | _, [] => []
  | index, line :: rest =>
    lineBytes inert index 0 (Utf8.encode line) ++ bytesFrom inert (index + 1) rest

def ofSource (s : Source) : Code :=
  let inert := Inert.ofSource s
  let macros := MacroDefinition.ofSource s inert
  { source := s
    inert := inert
    macros := macros
    macroRuns := (macros.map (·.lineRun)).toArray
    lines := inert.blankLines 0 s.lines
    bytes := bytesFrom inert 0 s.lines }

/-- Whether the line belongs to a macro definition. -/
def inMacro (code : Code) (line : Nat) : Bool :=
  (MacroDefinition.runAt? code.macroRuns line).isSome

/-- The bytes at or after a position. -/
def bytesAt (code : Code) (start : Position) : List CodeByte :=
  code.bytes.dropWhile fun b => decide (b.pos < start)

end Code

end ScopeLint
