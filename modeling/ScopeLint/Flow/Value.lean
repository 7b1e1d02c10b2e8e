import ScopeLint.Text.Line

/-!
# Assigned values

The text of the value that a line gives to a variable, read byte by byte from the end of the
variable's name.
-/

namespace ScopeLint.Flow

/-- The kind of brackets around a value. -/
inductive Enclosing where
  | nothing
  | parentheses
  | braces
  deriving DecidableEq, Repr

/-- The text between two columns, and nothing if they are out of order. -/
def valueText (line : Line) (start stop : Nat) : Line := (line.cut? start stop).getD []

/-- Reads on through a value that starts at column `start`, with `depth` brackets open. A value in
brackets ends with the bracket that closes them, any other at the first semicolon of the line or at
its end. -/
def readValue (line : Line) (start : Nat) (enclosing : Enclosing) (depth : Int) :
    Nat → List UInt8 → Option Line
  | _, [] => none
  | col, b :: rest =>
    if isBlankByte b then readValue line start enclosing depth (col + 1) rest
    else if b = '\x7b'.toUInt8 ∧ enclosing ≠ .parentheses then
      if depth = 0 then readValue line (col + 1) .braces 1 (col + 1) rest
      else readValue line start enclosing (depth + 1) (col + 1) rest
    else if b = '('.toUInt8 ∧ enclosing ≠ .braces then
      if depth = 0 then readValue line (col + 1) .parentheses 1 (col + 1) rest
      else readValue line start enclosing (depth + 1) (col + 1) rest
    else if b = '\x7d'.toUInt8 ∧ enclosing ≠ .parentheses ∨
        b = ')'.toUInt8 ∧ enclosing ≠ .braces then
      if depth = 1 then some (valueText line start col)
      else readValue line start enclosing (depth - 1) (col + 1) rest
    else if enclosing = .nothing then
      some (valueText line start ((line.colsOf ';').head?.getD line.size))
    else readValue line start enclosing depth (col + 1) rest

/-- The value assigned by what follows a variable's name. Only a declaration gives a value without
an equals sign, by brackets directly after the name. -/
def assignedFrom (line : Line) (isDeclaration : Bool) : Nat → List UInt8 → Option Line
  | _, [] => none
  | col, b :: rest =>
    if isBlankByte b then assignedFrom line isDeclaration (col + 1) rest
    else if b = '='.toUInt8 then
      if rest.head? = some '='.toUInt8 then none
      else readValue line (col + 1) .nothing 0 (col + 1) rest
    else if b = '('.toUInt8 ∧ isDeclaration then
      readValue line (col + 1) .parentheses 1 (col + 1) rest
    else if b = '\x7b'.toUInt8 ∧ isDeclaration then
      readValue line (col + 1) .braces 1 (col + 1) rest
    else none

/-- The value that a line assigns to the variable whose mention ends at column `start`, and none if
the line only reads it. -/
def assigned? (line : Line) (start : Nat) (isDeclaration : Bool) : Option Line :=
  assignedFrom line isDeclaration start ((Utf8.encode line).drop start)

/-- No value, `NULL` and `0`: what a pointer must not hold when it is used. -/
def isNullValue (value : Line) : Bool :=
  let value := trim value
  value == [] || value == "NULL".toList || value == "0".toList

end ScopeLint.Flow
