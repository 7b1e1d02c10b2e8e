/-!
# Blanks and parts of a text

The characters with the Unicode property `White_Space`, trimming a text of them, and taking a text
apart at separators.
-/

namespace ScopeLint

/-- The characters with the Unicode property `White_Space`. -/
def isBlank (c : Char) : Bool :=
  let v := c.toNat
  (9 ≤ v && v ≤ 13) || v == 0x20 || v == 0x85 || v == 0xA0 || v == 0x1680 ||
    (0x2000 ≤ v && v ≤ 0x200A) || v == 0x2028 || v == 0x2029 || v == 0x202F || v == 0x205F ||
    v == 0x3000

/-- The text from its first character that is not blank. -/
def trimStart (text : List Char) : List Char := text.dropWhile isBlank

/-- The text up to its last character that is not blank. -/
def trimEnd : List Char → List Char
  | [] => []
  | c :: rest =>
    match trimEnd rest with
    | [] => if isBlank c then [] else [c]
    | d :: kept => c :: d :: kept

def trim (text : List Char) : List Char := trimStart (trimEnd text)

/-- The blanks of ASCII as bytes: space, tab, line feed, form feed and carriage return. -/
def isBlankByte (b : UInt8) : Bool := b == 32 || b == 9 || b == 10 || b == 12 || b == 13

/-! ## Parts -/

/-- The parts between separators; there is one part more than there are separators. -/
def splitAt {α : Type} (isSeparator : α → Bool) : List α → List (List α)
  | [] => [[]]
  | x :: rest =>
    if isSeparator x then [] :: splitAt isSeparator rest
    else
      match splitAt isSeparator rest with
      | [] => [[x]]
      | part :: parts => (x :: part) :: parts

/-! ## Qualified names -/

/-- Whether the text holds `::`. -/
def isQualified : List Char → Bool
  | ':' :: ':' :: _ => true
  | _ :: rest => isQualified rest
  | [] => false

/-- What follows the last `::` of the text, and `sofar` if there is none. -/
def lastPartFrom (sofar : List Char) : List Char → List Char
  | ':' :: ':' :: rest => lastPartFrom rest (':' :: rest)
  | _ :: rest => lastPartFrom sofar rest
  | [] => sofar

/-- A name without the qualifiers before its last `::` and without tildes in front. -/
def unqualified (name : List Char) : List Char :=
  (lastPartFrom name name).dropWhile (· == '~')

/-! ## Laws -/

/-- Trimming at the end takes away blanks only. -/
theorem exists_trimEnd_append (text : List Char) :
    ∃ blanks, text = trimEnd text ++ blanks ∧ blanks.all isBlank = true := by
  induction text with
  | nil => exact ⟨[], rfl, rfl⟩
  | cons c rest ih =>
    obtain ⟨blanks, hrest, hblanks⟩ := ih
    unfold trimEnd
    split
    · rename_i h
      rw [h, List.nil_append] at hrest
      split
      · rename_i hc
        exact ⟨c :: blanks, by simp [hrest], by simp [hc, hblanks]⟩
      · exact ⟨blanks, by simp [hrest], hblanks⟩
    · rename_i d kept h
      rw [h] at hrest
      exact ⟨blanks, by simp [hrest], hblanks⟩

end ScopeLint
