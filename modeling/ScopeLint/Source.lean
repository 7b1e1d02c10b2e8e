import ScopeLint.Span
import ScopeLint.Text.Line

/-!
# Source units

A unit of source text: its lines in order and the name it is reported under.
-/

namespace ScopeLint

/-! ## Lines of a text -/

/-- The stretches between line feeds, each with whether a line feed ends it, after the stretches
`done` and the items `current` of an unfinished one, both last first. -/
def stretchesFrom {α : Type} (isFeed : α → Bool) (current : List α)
    (done : List (List α × Bool)) : List α → List (List α × Bool)
  | [] => (if current.isEmpty then done else (current.reverse, false) :: done).reverse
  | x :: rest =>
    if isFeed x then stretchesFrom isFeed [] ((current.reverse, true) :: done) rest
    else stretchesFrom isFeed (x :: current) done rest

/-- The line without one carriage return at its end. -/
def dropReturn (line : Line) : Line :=
  match line.getLast? with
  | some '\r' => line.dropLast
  | _ => line

/-- A carriage return before a line feed belongs to the line end; one more is dropped at the end of
every line. -/
def lineOfStretch (stretch : Line × Bool) : Line :=
  if stretch.2 then dropReturn (dropReturn stretch.1) else dropReturn stretch.1

/-! ## Units -/

structure Source where
  name : String
  lines : List Line
  deriving DecidableEq, Repr, Inhabited

namespace Source

def ofText (name : String) (text : List Char) : Source :=
  ⟨name, (stretchesFrom (· == '\n') [] [] text).map lineOfStretch⟩

/-- The unit of a file. No character contains the byte of a line feed, so each line is decoded on
its own. -/
def ofBytes (name : String) (bytes : List UInt8) : Source :=
  ⟨name, (stretchesFrom (· == 10) [] [] bytes).map
    fun stretch => lineOfStretch (Utf8.decodeLossy stretch.1, stretch.2)⟩

/-- The line at `index`, and an empty line where there is none. -/
def line (s : Source) (index : Nat) : Line := s.lines[index]?.getD []

def byteAt? (s : Source) (p : Position) : Option UInt8 :=
  (s.lines[p.line]?).bind (·.byteAt? p.col)

/-- The last byte of the last line, as far as there is one. -/
def lastPosition (s : Source) : Position :=
  ⟨s.lines.length - 1, (s.line (s.lines.length - 1)).lastCol⟩

/-- The part of one line from `start` on and in front of `behind`. -/
def pieceOf (start behind : Position) (index : Nat) (line : Line) : Line :=
  line.slice (if index = start.line then start.col else 0)
    (if index = behind.line then behind.col else line.size)

/-- The text from `start` on and in front of `behind`, one piece for each line. -/
def pieces (s : Source) (start behind : Position) : List Line :=
  s.lines.zipIdx.filterMap fun (line, index) =>
    if start.line ≤ index ∧ index ≤ behind.line then some (pieceOf start behind index line)
    else none

/-- The text between any two positions, both included, one piece for each line. -/
def slice (s : Source) (start stop : Position) : List Line :=
  s.pieces start ⟨stop.line, succ64 stop.col⟩

/-- The slice of a span of the unit: no column of the unit is the last number. -/
def linesOf (s : Source) (span : Span) : List Line := s.pieces span.start span.behind

/-- The pieces of a span of the unit joined by line feeds. -/
def textOf (s : Source) (span : Span) : List Char := List.intercalate ['\n'] (s.linesOf span)

end Source

end ScopeLint
