import ScopeLint.Sort
import ScopeLint.Text.Alphabetic
import ScopeLint.Text.Blank
import ScopeLint.Text.LetterCase
import ScopeLint.Text.Mark
import ScopeLint.Text.Number

/-!
# Word characters

What may stand in an identifier, and upper and lower case. Characters of ASCII are decided without
the tables. Words are read by the characters of Unicode 16.0, so that none of the newer ones is a
word character.
-/

namespace ScopeLint

/-- Code points of letters, marks and digits that are new in Unicode 17.0. -/
def recentRuns : Array (Nat × Nat) := #[
  (0x88F, 0x88F), (0xC5C, 0xC5C), (0xCDC, 0xCDC), (0x1ACF, 0x1ADD), (0x1AE0, 0x1AEB),
  (0xA7CE, 0xA7CF), (0xA7D2, 0xA7D2), (0xA7D4, 0xA7D4), (0xA7F1, 0xA7F1), (0x10940, 0x10959),
  (0x10EC5, 0x10EC7), (0x10EFA, 0x10EFB), (0x11B60, 0x11B67), (0x11DB0, 0x11DDB),
  (0x11DE0, 0x11DE9), (0x16EA0, 0x16EB8), (0x16EBB, 0x16ED3), (0x16FF2, 0x16FF6),
  (0x187F8, 0x187FF), (0x18D09, 0x18D1E), (0x18D80, 0x18DF2), (0x1E6C0, 0x1E6DE),
  (0x1E6E0, 0x1E6F5), (0x1E6FE, 0x1E6FF), (0x2B73A, 0x2B73F), (0x2CEA2, 0x2CEAD),
  (0x323B0, 0x33479)]

/-- Whether `v` lies in one of the sorted runs. -/
def inRuns (runs : Array (Nat × Nat)) (v : Nat) : Bool :=
  match lastInFront? (fun run => run.1 ≤ v) runs with
  | none => false
  | some run => v ≤ run.2

/-- Whether `v` lies in one of the sorted runs with a step. -/
def inSteppedRuns (runs : Array (Nat × Nat × Nat)) (v : Nat) : Bool :=
  match lastInFront? (fun run => run.1 ≤ v) runs with
  | none => false
  | some (first, last, step) => v ≤ last && (v - first) % step == 0

/-- Connector punctuation and the two invisible joiners. -/
def isJoiner (v : Nat) : Bool :=
  v == 0x5F || v == 0x200C || v == 0x200D || v == 0x203F || v == 0x2040 || v == 0x2054 ||
    v == 0xFE33 || v == 0xFE34 || (0xFE4D ≤ v && v ≤ 0xFE4F) || v == 0xFF3F

/-- Letters, marks, decimal digits, connector punctuation and joiners: what a word is made of. Recent
characters are not among them. -/
def isWord (c : Char) : Bool :=
  let v := c.toNat
  if v < 0x80 then c.isAlphanum || c == '_'
  else
    (inRuns alphabeticRuns v || inRuns markRuns v || inRuns decimalRuns v || isJoiner v) &&
      !inRuns recentRuns v

/-- Letters and numbers of any kind. -/
def isAlphanumeric (c : Char) : Bool :=
  let v := c.toNat
  if v < 0x80 then c.isAlphanum else inRuns alphabeticRuns v || inRuns numberRuns v

def isUpperCase (c : Char) : Bool :=
  let v := c.toNat
  if v < 0x80 then c.isUpper else inSteppedRuns upperRuns v

def isLowerCase (c : Char) : Bool :=
  let v := c.toNat
  if v < 0x80 then c.isLower else inSteppedRuns lowerRuns v

/-- The character as it stands in a lower case ASCII name. The Kelvin sign is the only character
outside ASCII with a lower case inside; every other one stays outside, so that comparing with an
ASCII name needs no more of its case. -/
def lowerInName (c : Char) : Char := if c == '\u212A' then 'k' else c.toLower

/-! ## Laws -/

/-- The code points of the blank characters. -/
def blankPoints : List Nat :=
  [9, 10, 11, 12, 13, 0x20, 0x85, 0xA0, 0x1680, 0x2000, 0x2001, 0x2002, 0x2003, 0x2004, 0x2005,
    0x2006, 0x2007, 0x2008, 0x2009, 0x200A, 0x2028, 0x2029, 0x202F, 0x205F, 0x3000]

theorem toNat_mem_blankPoints {c : Char} (h : isBlank c = true) : c.toNat ∈ blankPoints := by
  simp only [isBlank, Bool.or_eq_true, Bool.and_eq_true, decide_eq_true_eq, beq_iff_eq] at h
  simp only [blankPoints, List.mem_cons, List.not_mem_nil, or_false]
  omega

theorem isWord_ofNat_blankPoints : ∀ v ∈ blankPoints, isWord (Char.ofNat v) = false := by
  decide +kernel

theorem isBlank_eq_false_of_isWord {c : Char} (h : isWord c = true) : isBlank c = false := by
  cases hblank : isBlank c with
  | false => rfl
  | true =>
    have hword := isWord_ofNat_blankPoints c.toNat (toNat_mem_blankPoints hblank)
    rw [Char.ofNat_toNat, h] at hword
    simp at hword

end ScopeLint
