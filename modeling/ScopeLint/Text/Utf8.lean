/-!
# UTF-8

Encoding a text as bytes, and decoding bytes either strictly or with U+FFFD in place of what is not
well-formed. Each longest part that could begin a character but does not become one is replaced by
a single U+FFFD.
-/

namespace ScopeLint.Utf8

def encode (text : List Char) : List UInt8 := text.flatMap String.utf8EncodeChar

/-- A character begun but not complete: the bits so far, how many bytes it still needs, and the
least and greatest value that the next of them may have. -/
structure Begun where
  bits : Nat
  owed : Nat
  low : UInt8
  high : UInt8
  deriving DecidableEq, Repr

/-- What one byte amounts to after those before it. -/
inductive Step where
  | complete (c : Char)
  | begun (b : Begun)
  | malformed
  deriving DecidableEq, Repr

/-- The first byte of a character. -/
def first (b : UInt8) : Step :=
  if b < 0x80 then .complete (Char.ofNat b.toNat)
  else if b < 0xC2 then .malformed
  else if b < 0xE0 then .begun ⟨b.toNat - 0xC0, 1, 0x80, 0xBF⟩
  else if b < 0xF0 then
    .begun ⟨b.toNat - 0xE0, 2, if b = 0xE0 then 0xA0 else 0x80, if b = 0xED then 0x9F else 0xBF⟩
  else if b < 0xF5 then
    .begun ⟨b.toNat - 0xF0, 3, if b = 0xF0 then 0x90 else 0x80, if b = 0xF4 then 0x8F else 0xBF⟩
  else .malformed

/-- A later byte of a character. -/
def next (q : Begun) (b : UInt8) : Step :=
  if q.low ≤ b ∧ b ≤ q.high then
    let bits := q.bits * 64 + (b.toNat - 0x80)
    if q.owed = 1 then .complete (Char.ofNat bits) else .begun ⟨bits, q.owed - 1, 0x80, 0xBF⟩
  else .malformed

/-- The characters of a sequence of bytes, with `none` for each part that is not well-formed. -/
def decodeFrom : Option Begun → List UInt8 → List (Option Char)
  | none, [] => []
  | some _, [] => [none]
  | none, b :: rest =>
    match first b with
    | .complete c => some c :: decodeFrom none rest
    | .begun q => decodeFrom (some q) rest
    | .malformed => none :: decodeFrom none rest
  | some q, b :: rest =>
    match next q b with
    | .complete c => some c :: decodeFrom none rest
    | .begun q' => decodeFrom (some q') rest
    | .malformed =>
      match first b with
      | .complete c => none :: some c :: decodeFrom none rest
      | .begun q' => none :: decodeFrom (some q') rest
      | .malformed => none :: none :: decodeFrom none rest

/-- The text of the bytes, with U+FFFD for each part that is not well-formed. -/
def decodeLossy (bytes : List UInt8) : List Char :=
  (decodeFrom none bytes).map (·.getD '\uFFFD')

/-- The text of the bytes if all of them are well-formed. -/
def decode? (bytes : List UInt8) : Option (List Char) := (decodeFrom none bytes).mapM id

end ScopeLint.Utf8
