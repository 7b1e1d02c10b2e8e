import ScopeLint.Kind
import ScopeLint.Source

/-!
# Comments and literals

Comments and string and character literals are inert: no bracket, keyword or name inside them
counts. `Inert.pieces` reads a unit once, byte by byte, and lists them in order.
-/

namespace ScopeLint

inductive CommentStyle where
  | singleLine
  | multiLine
  deriving DecidableEq, Repr

def CommentStyle.kind : CommentStyle → Kind
  | singleLine => .singleLineComment
  | multiLine => .multiLineComment

structure Comment where
  style : CommentStyle
  span : Span
  deriving DecidableEq, Repr

/-- A comment or a literal. -/
inductive Inert.Piece where
  | comment (c : Comment)
  | literal (span : Span)
  deriving DecidableEq, Repr

/-- The comments and the literals of a unit, each in order and without overlaps. -/
structure Inert where
  comments : Array Comment
  literals : Array Span
  deriving DecidableEq, Repr

namespace Inert

def Piece.span : Piece → Span
  | comment c => c.span
  | literal s => s

/-! ## Reading -/

/-- What the reader is inside of. -/
inductive Mode where
  | code
  | block (start : Position)
  | string (start : Position)
  deriving DecidableEq, Repr

def slash : UInt8 := 47
def star : UInt8 := 42
def backslash : UInt8 := 92
def doubleQuote : UInt8 := 34
def singleQuote : UInt8 := 39

/-- The last column of a character literal that opens at `col`: two columns on, or three when a
backslash follows, but not past the line. -/
def characterEnd (lastCol col : Nat) (next : Option UInt8) : Nat :=
  if col = lastCol then col
  else if next = some backslash then min (col + 3) lastCol
  else min (col + 2) lastCol

/-- The pieces that end on a line, and the mode after it. The first `skip` of the bytes belong to
something already read; the first byte is at `col`. A string does not outlive its line. -/
def readLine (line lastCol : Nat) : Mode → Nat → Nat → List UInt8 → List Piece × Mode
  | .string start, _, _, [] => ([.literal ⟨start, ⟨line, lastCol⟩⟩], .code)
  | mode, _, _, [] => ([], mode)
  | mode, skip + 1, col, _ :: rest => readLine line lastCol mode skip (col + 1) rest
  | .code, 0, col, b :: rest =>
    if b = slash ∧ rest.head? = some slash then
      ([.comment ⟨.singleLine, Span.onLine line col lastCol⟩], .code)
    else if b = slash ∧ rest.head? = some star then
      readLine line lastCol (.block ⟨line, col⟩) 1 (col + 1) rest
    else if b = doubleQuote then
      readLine line lastCol (.string ⟨line, col⟩) 0 (col + 1) rest
    else if b = singleQuote then
      let stop := characterEnd lastCol col rest.head?
      let (pieces, mode) := readLine line lastCol .code (stop - col) (col + 1) rest
      (.literal (Span.onLine line col stop) :: pieces, mode)
    else readLine line lastCol .code 0 (col + 1) rest
  | .block start, 0, col, b :: rest =>
    if b = star ∧ rest.head? = some slash then
      let (pieces, mode) := readLine line lastCol .code 1 (col + 1) rest
      (.comment ⟨.multiLine, ⟨start, ⟨line, col + 1⟩⟩⟩ :: pieces, mode)
    else readLine line lastCol (.block start) 0 (col + 1) rest
  | .string start, 0, col, b :: rest =>
    if b = backslash then readLine line lastCol (.string start) 1 (col + 1) rest
    else if b = doubleQuote then
      let (pieces, mode) := readLine line lastCol .code 0 (col + 1) rest
      (.literal ⟨start, ⟨line, col⟩⟩ :: pieces, mode)
    else readLine line lastCol (.string start) 0 (col + 1) rest

/-- The pieces that end on the lines from number `index` on, and the mode after them. -/
def readLines : Mode → Nat → List Line → List Piece × Mode
  | mode, _, [] => ([], mode)
  | mode, index, line :: rest =>
    let (pieces, mode) := readLine index line.lastCol mode 0 0 (Utf8.encode line)
    let (more, mode) := readLines mode (index + 1) rest
    (pieces ++ more, mode)

/-- All comments and literals of a unit. A block comment that is never closed runs to its end. -/
def pieces (s : Source) : List Piece :=
  match readLines .code 0 s.lines with
  | (pieces, .block start) =>
    let stop := if start ≤ s.lastPosition then s.lastPosition else start
    pieces ++ [.comment ⟨.multiLine, ⟨start, stop⟩⟩]
  | (pieces, _) => pieces

def ofPieces (pieces : List Piece) : Inert where
  comments := (pieces.filterMap fun | .comment c => some c | .literal _ => none).toArray
  literals := (pieces.filterMap fun | .comment _ => none | .literal s => some s).toArray

def ofSource (s : Source) : Inert := ofPieces (pieces s)

/-! ## Asking -/

def inComment (i : Inert) (p : Position) : Bool :=
  (findContaining Comment.span i.comments p).isSome

def inLiteral (i : Inert) (p : Position) : Bool := (findContaining id i.literals p).isSome

/-- Whether the byte at `p` is in a comment or a literal. -/
def covers (i : Inert) (p : Position) : Bool := i.inComment p || i.inLiteral p

/-! ## Blanking -/

/-- The bytes of a line with a space for each that is in a comment. -/
def blankBytes (i : Inert) (line : Nat) : Nat → List UInt8 → List UInt8
  | _, [] => []
  | col, b :: rest =>
    (if i.inComment ⟨line, col⟩ then 32 else b) :: blankBytes i line (col + 1) rest

/-- The lines with every comment blanked out, each byte by one space, so that columns stay. -/
def blankLines (i : Inert) : Nat → List Line → List Line
  | _, [] => []
  | index, line :: rest =>
    Utf8.decodeLossy (i.blankBytes index 0 (Utf8.encode line)) :: i.blankLines (index + 1) rest

end Inert

end ScopeLint
