import ScopeLint.Text.Blank

/-!
# Natural order

The order of names in which numbers inside them count as numbers. A name is a list of pieces, each
of them a number or one other character. Blanks are in no piece, but a number ends at a blank. Names
are in the lexicographic order of their pieces.
-/

namespace ScopeLint.Natural

/-- A part of a name that counts as a whole. -/
inductive Piece where
  /-- A run of digits. -/
  | number (digit : Char) (more : List Char)
  | other (c : Char)
  deriving DecidableEq, Repr

namespace Piece

def first : Piece → Char
  | number digit _ => digit
  | other c => c

/-- The order of two numbers. One that starts with a zero on either side is compared digit by digit
from the left, like the places behind a point; other numbers are compared by their value. -/
def compareNumbers (a b : List Char) : Ordering :=
  if a.head? = some '0' ∨ b.head? = some '0' then List.compareLex compare a b
  else (compare a.length b.length).then (List.compareLex compare a b)

/-- The order of two pieces. Unless both are numbers their first characters decide. -/
def order : Piece → Piece → Ordering
  | number c cs, number d ds => compareNumbers (c :: cs) (d :: ds)
  | a, b => compare a.first b.first

/-- The pieces of a text without blanks. -/
def ofWord : List Char → List Piece
  | [] => []
  | c :: rest =>
    if c.isDigit then
      match ofWord rest with
      | number d ds :: pieces => number c (d :: ds) :: pieces
      | pieces => number c [] :: pieces
    else other c :: ofWord rest

end Piece

/-- The pieces of a name. -/
def pieces (name : String) : List Piece := (splitAt isBlank name.toList).flatMap Piece.ofWord

def compareNames (a b : String) : Ordering :=
  List.compareLex Piece.order (pieces a) (pieces b)

/-- Whether `a` may stand before `b`. -/
def le (a b : String) : Bool := compareNames a b != .gt

end ScopeLint.Natural
