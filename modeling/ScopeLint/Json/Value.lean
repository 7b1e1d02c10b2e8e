import ScopeLint.Json.Text
import ScopeLint.Number.Shortest

/-!
# JSON values

What a JSON text means, with strings and numbers decoded, and the compact text of a value. The keys
of a record are sorted, and of several members with one key the last one counts. What is wrong with
a text is not told.
-/

namespace ScopeLint

inductive JsonNumber where
  | integer (n : Int)
  | float (negative : Bool) (size : Binary64)
  deriving DecidableEq, Repr

inductive JsonValue where
  | null
  | bool (b : Bool)
  | number (n : JsonNumber)
  | string (s : String)
  | list (items : List JsonValue)
  | record (members : List (String × JsonValue))
  deriving Repr

/-! ## Strings -/

namespace JsonText

def hexValue (c : Char) : Nat :=
  if c.isDigit then c.toNat - '0'.toNat
  else if 'a' ≤ c then c.toNat - 'a'.toNat + 10
  else c.toNat - 'A'.toNat + 10

def hexUnit (digits : List Char) : Nat := digits.foldl (fun n c => n * 16 + hexValue c) 0

def isHighSurrogate (u : Nat) : Bool := 0xD800 ≤ u && u < 0xDC00
def isLowSurrogate (u : Nat) : Bool := 0xDC00 ≤ u && u < 0xE000

/-- The character of a one-letter escape. -/
def escaped : Char → Char
  | 'b' => '\x08'
  | 'f' => '\x0c'
  | 'n' => '\n'
  | 'r' => '\r'
  | 't' => '\t'
  | c => c

/-- The characters of a string as it is written; none if half of a surrogate pair is missing. -/
def decode : List Char → Option (List Char)
  | [] => some []
  | '\\' :: 'u' :: a :: b :: c :: d :: rest =>
    let unit := hexUnit [a, b, c, d]
    if isLowSurrogate unit then none
    else if isHighSurrogate unit then
      match rest with
      | '\\' :: 'u' :: e :: f :: g :: h :: rest =>
        let low := hexUnit [e, f, g, h]
        if isLowSurrogate low then
          (decode rest).map (Char.ofNat (0x10000 + (unit - 0xD800) * 0x400 + (low - 0xDC00)) :: ·)
        else none
      | _ => none
    else (decode rest).map (Char.ofNat unit :: ·)
  | '\\' :: e :: rest => (decode rest).map (escaped e :: ·)
  | c :: rest => (decode rest).map (c :: ·)

def decodeString (raw : List Char) : Option String := (decode raw).map String.ofList

end JsonText

/-! ## Numbers -/

namespace NumberText

/-- Reads digits as long as the number fits 64 bits: the number, and the digits left. -/
def takeFitting (n : Nat) : List Char → Nat × List Char
  | [] => (n, [])
  | c :: rest =>
    let next := n * 10 + (c.toNat - '0'.toNat)
    if next < UInt64.size then takeFitting next rest else (n, c :: rest)

def exponentValue : Option (Bool × List Char) → Int
  | none => 0
  | some (negative, digits) =>
    let n : Nat := digits.foldl (fun n c => n * 10 + (c.toNat - '0'.toNat)) 0
    if negative then -n else n

/-- The number as a float. Digits that do not fit 64 bits do not count beyond their place. -/
def float? (n : NumberText) : Option Binary64 :=
  let (significand, dropped) := takeFitting 0 n.whole
  let fraction := n.fraction.getD []
  let (significand, left) := takeFitting significand fraction
  let places : Int := (dropped.length : Int) - ((fraction.length : Int) - (left.length : Int))
  Binary64.ofDecimal? significand (places + exponentValue n.exponent)

/-- A number without point and exponent is an integer if 64 bits hold it, where zero has no sign;
any other is a float, and none if it is too large for one. -/
def value? (n : NumberText) : Option JsonNumber :=
  let float := n.float?.map (JsonNumber.float n.negative)
  match n.fraction, n.exponent with
  | none, none =>
    match takeFitting 0 n.whole with
    | (size, []) =>
      if ¬n.negative then some (.integer size)
      else if size ≠ 0 ∧ size ≤ UInt64.size / 2 then some (.integer (-size))
      else float
    | _ => float
  | _, _ => float

end NumberText

/-! ## Values -/

/-- The members with `value` under `key`, sorted by key. -/
def JsonValue.insertMember (key : String) (value : JsonValue) :
    List (String × JsonValue) → List (String × JsonValue)
  | [] => [(key, value)]
  | (k, v) :: rest =>
    if key < k then (key, value) :: (k, v) :: rest
    else if key = k then (key, value) :: rest
    else (k, v) :: insertMember key value rest

namespace JsonText

mutual

/-- The value of a text with at most `depth` lists and records inside one another. -/
def value? : JsonText → Nat → Option JsonValue
  | .null, _ => some .null
  | .bool b, _ => some (.bool b)
  | .number n, _ => n.value?.map .number
  | .string raw, _ => (decodeString raw).map .string
  | .list _, 0 => none
  | .list items, depth + 1 => (items? items depth).map .list
  | .record _, 0 => none
  | .record members, depth + 1 => (members? members [] depth).map .record

def items? : List JsonText → Nat → Option (List JsonValue)
  | [], _ => some []
  | item :: rest, depth => do return (← value? item depth) :: (← items? rest depth)

/-- The values of the members, put in behind those read so far. -/
def members? : List (List Char × JsonText) → List (String × JsonValue) → Nat →
    Option (List (String × JsonValue))
  | [], sofar, _ => some sofar
  | (key, item) :: rest, sofar, depth => do
    let key ← decodeString key
    let value ← value? item depth
    members? rest (JsonValue.insertMember key value sofar) depth

end

end JsonText

/-! ## Compact texts -/

namespace JsonValue

def hexDigit (n : Nat) : Char := if n < 10 then Char.ofNat (48 + n) else Char.ofNat (87 + n)

def escapeChar (c : Char) : List Char :=
  if c = '"' then ['\\', '"']
  else if c = '\\' then ['\\', '\\']
  else if c = '\x08' then ['\\', 'b']
  else if c = '\x0c' then ['\\', 'f']
  else if c = '\n' then ['\\', 'n']
  else if c = '\r' then ['\\', 'r']
  else if c = '\t' then ['\\', 't']
  else if c < ' ' then ['\\', 'u', '0', '0', hexDigit (c.toNat / 16), hexDigit (c.toNat % 16)]
  else [c]

def quoted (s : String) : String :=
  "\"" ++ String.ofList (s.toList.flatMap escapeChar) ++ "\""

end JsonValue

/-- The digits without zeros at their end, most significant first, and the power of ten of the first
one. -/
def Decimal.significant (d : Decimal) : List Char × Int :=
  let digits := Nat.toDigits 10 d.digits
  let first := d.exponent + digits.length - 1
  ((digits.reverse.dropWhile (· == '0')).reverse, first)

/-- How a float is written: in positional notation if its first digit stands for a power of ten from
`least` to `greatest`, with a point in any case, and with an exponent otherwise. -/
structure FloatFormat where
  least : Int
  greatest : Int

namespace FloatFormat

def exponentText (e : Int) : String :=
  if e < 0 then s!"e-{(-e).toNat}" else s!"e+{e.toNat}"

def zeros (n : Nat) : List Char := List.replicate n '0'

/-- The text of a number with these digits, the first of them at `10 ^ first`. -/
def text (format : FloatFormat) (digits : List Char) (first : Int) : String :=
  if format.least ≤ first ∧ first ≤ format.greatest then
    if first < 0 then "0." ++ String.ofList (zeros (-first - 1).toNat ++ digits)
    else
      let count := first.toNat + 1
      let whole := digits.take count ++ zeros (count - digits.length)
      let fraction := if digits.drop count = [] then ['0'] else digits.drop count
      String.ofList (whole ++ '.' :: fraction)
  else
    let fraction := if digits.drop 1 = [] then [] else '.' :: digits.drop 1
    String.ofList (digits.take 1 ++ fraction) ++ exponentText first

end FloatFormat

namespace JsonNumber

/-- Floats are positional from `0.00001` to below `10 ^ 16`. -/
def floatFormat : FloatFormat := ⟨-5, 15⟩

def text : JsonNumber → String
  | integer n => toString n
  | float negative size =>
    let (digits, first) :=
      if size.mantissa = 0 then (['0'], 0) else size.shortest.significant
    (if negative then "-" else "") ++ floatFormat.text digits first

end JsonNumber

namespace JsonValue

mutual

/-- The text of a value without blanks. -/
def text : JsonValue → String
  | .null => "null"
  | .bool b => if b then "true" else "false"
  | .number n => n.text
  | .string s => quoted s
  | .list items => "[" ++ ",".intercalate (itemTexts items) ++ "]"
  | .record members => "\x7b" ++ ",".intercalate (memberTexts members) ++ "\x7d"

def itemTexts : List JsonValue → List String
  | [] => []
  | item :: rest => text item :: itemTexts rest

def memberTexts : List (String × JsonValue) → List String
  | [] => []
  | (key, value) :: rest => (quoted key ++ ":" ++ text value) :: memberTexts rest

end

end JsonValue

end ScopeLint
