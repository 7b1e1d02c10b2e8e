import ScopeLint.Code
import ScopeLint.Fault

/-!
# Extents

Where a scope ends: at the bracket that closes the first group opened at or after its start, or at
a semicolon before any such group. Only bytes outside comments and literals count.
-/

namespace ScopeLint

/-- A pair of brackets, and whether a semicolon before the first of them ends the extent. -/
structure Delimiters where
  opening : Char
  closing : Char
  endsAtStatement : Bool
  deriving DecidableEq, Repr

namespace Delimiters

def braces : Delimiters := ⟨'\x7b', '\x7d', false⟩
def bracesOrStatement : Delimiters := ⟨'\x7b', '\x7d', true⟩
def parentheses : Delimiters := ⟨'(', ')', false⟩

end Delimiters

namespace Extent

/-- How many groups may be open at once. -/
def depthLimit : Nat := 128

/-- How a reading of bytes for the end of an extent ends. -/
inductive Reading where
  | closed (stop : Position)
  | tooDeep (line : Nat)
  | unclosed
  deriving DecidableEq, Repr

/-- Reads on with `depth` groups open; closing brackets before the first group do not count. -/
def read (d : Delimiters) : Nat → List CodeByte → Reading
  | _, [] => .unclosed
  | 0, b :: rest =>
    if b.byte = d.opening.toUInt8 then read d 1 rest
    else if d.endsAtStatement ∧ b.byte = ';'.toUInt8 then .closed b.pos
    else read d 0 rest
  | depth + 1, b :: rest =>
    if b.byte = d.opening.toUInt8 then
      if depthLimit < depth + 2 then .tooDeep b.pos.line else read d (depth + 2) rest
    else if b.byte = d.closing.toUInt8 then
      if depth = 0 then .closed b.pos else read d depth rest
    else read d (depth + 1) rest

/-- The end of the extent that starts at `start`. -/
def resolve (code : Code) (start : Position) (d : Delimiters) : Except Unbalanced Position :=
  match read d 0 (code.bytesAt start) with
  | .closed p => .ok p
  | .tooDeep line => .error ⟨line, .tooDeep depthLimit⟩
  | .unclosed => .error ⟨start.line, .unclosed d.closing⟩

/-- The first byte at or after `start` that is not blank. -/
def nextCode? (code : Code) (start : Position) : Option CodeByte :=
  (code.bytesAt start).find? fun b => !isBlankByte b.byte

/-- The position just behind a byte. -/
def behind (p : Position) : Position := ⟨p.line, p.col + 1⟩

/-- The semicolon of a `while` that closes a loop, given the position behind the word: one that
follows a parenthesized condition. -/
def loopStatement? (code : Code) (afterWord : Position) : Option Position := do
  let opening ← nextCode? code afterWord
  guard (opening.byte = '('.toUInt8)
  match resolve code opening.pos .parentheses with
  | .error _ => none
  | .ok closing =>
    let statement ← nextCode? code (behind closing)
    guard (statement.byte = ';'.toUInt8)
    return statement.pos

end Extent

end ScopeLint
