import ScopeLint.Text.Blank
import ScopeLint.Text.Utf8

/-!
# Lines and byte columns

A line is a list of characters, and a column of it counts bytes of its UTF-8 form. Both ends of a
cut may fall inside a character: `Line.slice` then takes the whole of it, and `Line.cut?` takes
nothing.
-/

namespace ScopeLint

abbrev Line := List Char

namespace Line

/-- The number of bytes. -/
def size : Line → Nat
  | [] => 0
  | c :: rest => c.utf8Size + size rest

/-- The column of the last byte, and 0 in an empty line. -/
def lastCol (line : Line) : Nat := size line - 1

/-- The column of the first character that is not blank. -/
def firstCodeCol (line : Line) : Nat := size (line.takeWhile isBlank)

def byteAt? (line : Line) (col : Nat) : Option UInt8 := (Utf8.encode line)[col]?

/-- Whether `col` lies between two characters or at an end of the line. -/
def isBoundary : Line → Nat → Bool
  | [], col => col == 0
  | c :: rest, col => col == 0 || (c.utf8Size ≤ col && isBoundary rest (col - c.utf8Size))

/-- The characters with a byte in the columns from `start` to before `stop`, in a line whose first
byte is at `col`. -/
def sliceFrom (start stop : Nat) : Nat → Line → Line
  | _, [] => []
  | col, c :: rest =>
    if col < stop ∧ start < col + c.utf8Size then
      c :: sliceFrom start stop (col + c.utf8Size) rest
    else sliceFrom start stop (col + c.utf8Size) rest

/-- The characters with a byte in the columns from `start` to before `stop`. -/
def slice (line : Line) (start stop : Nat) : Line := sliceFrom start stop 0 line

/-- The text between two columns that lie between characters and in order. -/
def cut? (line : Line) (start stop : Nat) : Option Line :=
  if start ≤ stop ∧ isBoundary line start ∧ isBoundary line stop then some (slice line start stop)
  else none

/-- The text from a column that lies between characters. -/
def from? (line : Line) (start : Nat) : Option Line := cut? line start (size line)

/-- Whether the text `part` stands somewhere in the line. -/
def holds : Line → Line → Bool
  | [], part => part.isEmpty
  | c :: rest, part => part.isPrefixOf (c :: rest) || holds rest part

/-- The columns of the characters `c` in a line whose first byte is at `col`. -/
def colsFrom (c : Char) (col : Nat) : Line → List Nat
  | [] => []
  | x :: rest =>
    if x = c then col :: colsFrom c (col + x.utf8Size) rest
    else colsFrom c (col + x.utf8Size) rest

/-- The columns of the characters `c` in a line, from the left. -/
def colsOf (line : Line) (c : Char) : List Nat := colsFrom c 0 line

end Line

end ScopeLint
