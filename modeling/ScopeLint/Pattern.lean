import ScopeLint.Text.Line
import ScopeLint.Text.Word

/-!
# Patterns

A pattern says which stretches of a line it accepts, and which of them it prefers: the first branch
of a choice before the second, and more steps of a loop before fewer.

`Pattern.ways` goes through a pattern from its end to its start, and through the line from its end
to its start. For each place it keeps the preferred way to go on from there and no other: how a
match got to a place does not matter for what follows. So each part of a pattern looks at each place
once. Of what engines for regular expressions offer there is as much here as the patterns of this
library ask for.
-/

namespace ScopeLint

/-! ## Places in a line -/

/-- A place between two characters of a line: the character before it, its column, and the rest of
the line. -/
structure Cursor where
  before : Option Char
  col : Nat
  rest : Line
  deriving DecidableEq, Repr

namespace Cursor

/-- The place behind `before` and all places after it. -/
def allFrom (before : Option Char) (col : Nat) : Line → List Cursor
  | [] => [⟨before, col, []⟩]
  | c :: rest => ⟨before, col, c :: rest⟩ :: allFrom (some c) (col + c.utf8Size) rest

/-- The places of a line, from its start to its end. -/
def all (line : Line) : List Cursor := allFrom none 0 line

def next? (c : Cursor) : Option Char := c.rest.head?

def isLineStart (c : Cursor) : Bool := c.before.isNone

def isLineEnd (c : Cursor) : Bool := c.rest.isEmpty

/-- Whether exactly one of the characters around the place is a word character. -/
def isWordEdge (c : Cursor) : Bool := c.before.any isWord != c.next?.any isWord

/-- The number of blanks behind the `skip` characters that come next. -/
def blanksAfter (c : Cursor) (skip : Nat) : Nat :=
  ((c.rest.drop skip).takeWhile isBlank).length

/-- The first of the words that comes next and ends there. -/
def wordAhead? (c : Cursor) (words : List Line) : Option Line :=
  words.find? fun w => w.isPrefixOf c.rest && !(c.rest.drop w.length).head?.any isWord

end Cursor

/-! ## Patterns -/

/-- The number of characters that are taken from a place, if it is a place to take any. -/
abbrev Step := Cursor → Option Nat

namespace Step

/-- Takes nothing, and that only at a place that passes the test. -/
def guarded (ok : Cursor → Bool) : Step := fun c => if ok c then some 0 else none

/-- Takes one character accepted by the test. -/
def one (ok : Char → Bool) : Step := fun c => if c.next?.any ok then some 1 else none

/-- Takes exactly this text. -/
def text (s : Line) : Step := fun c => if s.isPrefixOf c.rest then some s.length else none

/-- Takes the first of these texts that comes next. -/
def textOf (ss : List Line) : Step := fun c => (ss.find? (·.isPrefixOf c.rest)).map List.length

/-- Takes what the first of two steps takes, and what the second does where the first takes
nothing. -/
def orElse (first second : Step) : Step := fun c => (first c).or (second c)

end Step

/-- The parts of a match that are asked for afterwards. -/
inductive Part where
  | keyword
  | name
  | parameters
  deriving DecidableEq, Repr

/-- The columns of a part of a match. -/
structure Capture where
  start : Nat
  stop : Nat
  deriving DecidableEq, Repr

/-- An end of a part. -/
inductive Mark where
  | opens (part : Part)
  | closes (part : Part)
  deriving DecidableEq, Repr

inductive Pattern where
  | step (s : Step)
  /-- Any number of steps that move on. -/
  | loop (s : Step)
  | mark (m : Mark)
  | seq (first second : Pattern)
  | alt (preferred other : Pattern)

/-- A way to go on from a place to the end of a match: the column where it stops, and the columns of
the marks in order. -/
structure Way where
  stop : Nat
  marks : List (Mark × Nat)
  deriving DecidableEq, Repr

namespace Pattern

/-- The ways through one step and then on by one of `further`. -/
def stepWays (s : Step) : List Cursor → List (Option Way) → List (Option Way)
  | c :: places, here :: later =>
    ((s c).bind fun n => (here :: later)[n]?.join) :: stepWays s places later
  | _, _ => []

/-- The ways through a loop and then on by one of `further`. -/
def loopWays (s : Step) : List Cursor → List (Option Way) → List (Option Way)
  | c :: places, here :: later =>
    let again := loopWays s places later
    match s c with
    | none | some 0 => here :: again
    | some (n + 1) => again[n]?.join.or here :: again
  | _, _ => []

/-- The ways with a mark at their starts. -/
def markWays (m : Mark) (places : List Cursor) (further : List (Option Way)) :
    List (Option Way) :=
  List.zipWith (fun c way => way.map fun w => { w with marks := (m, c.col) :: w.marks })
    places further

/-- The preferred way from each of the places through the pattern and then on by one of `further`,
which holds one for each place. -/
def ways : Pattern → List Cursor → List (Option Way) → List (Option Way)
  | step s, places, further => stepWays s places further
  | loop s, places, further => loopWays s places further
  | mark m, places, further => markWays m places further
  | seq first second, places, further => first.ways places (second.ways places further)
  | alt preferred other, places, further =>
    List.zipWith Option.or (preferred.ways places further) (other.ways places further)

/-! ### Where no way is left -/

theorem stepWays_eq_none {s : Step} {places : List Cursor} {further : List (Option Way)}
    (h : (∀ c ∈ places, s c = none) ∨ ∀ way ∈ further, way = none) :
    ∀ way ∈ stepWays s places further, way = none := by
  fun_induction stepWays s places further with
  | case1 c places here later ih =>
    intro way hway
    rcases List.mem_cons.mp hway with rfl | hway
    · rcases h with h | h
      · simp [h c (by simp)]
      · cases s c with
        | none => rfl
        | some n =>
          cases hn : (here :: later)[n]? with
          | none => simp [hn]
          | some w => simp [hn, h w (List.mem_of_getElem? hn)]
    · exact ih (h.imp (fun h c hc => h c (by simp [hc])) fun h w hw => h w (by simp [hw])) way hway
  | case2 => simp

theorem loopWays_eq_none {s : Step} {places : List Cursor} {further : List (Option Way)}
    (h : ∀ way ∈ further, way = none) : ∀ way ∈ loopWays s places further, way = none := by
  fun_induction loopWays s places further with
  | case1 c places here later again hs ih =>
    intro way hway
    rcases List.mem_cons.mp hway with rfl | hway
    · exact h _ (by simp)
    · exact ih (fun w hw => h w (by simp [hw])) way hway
  | case2 c places here later again hs ih =>
    intro way hway
    rcases List.mem_cons.mp hway with rfl | hway
    · exact h _ (by simp)
    · exact ih (fun w hw => h w (by simp [hw])) way hway
  | case3 c places here later again n hs ih =>
    have hlater := ih fun w hw => h w (by simp [hw])
    intro way hway
    rcases List.mem_cons.mp hway with rfl | hway
    · cases hn : again[n]? with
      | none => simp [h here (by simp)]
      | some w => simp [hlater w (List.mem_of_getElem? hn), h here (by simp)]
    · exact hlater way hway
  | case4 => simp

/-- Where nothing further leads on, no pattern does. -/
theorem ways_eq_none (p : Pattern) {places : List Cursor} {further : List (Option Way)}
    (h : ∀ way ∈ further, way = none) : ∀ way ∈ p.ways places further, way = none := by
  induction p generalizing further with
  | step s => exact stepWays_eq_none (.inr h)
  | loop s => exact loopWays_eq_none h
  | mark m =>
    intro way hway
    obtain ⟨i, hi, rfl⟩ := List.mem_iff_getElem.mp hway
    simp [ways, markWays, h _ (List.getElem_mem _)]
  | seq first second ih₁ ih₂ => exact ih₁ (ih₂ h)
  | alt preferred other ih₁ ih₂ =>
    intro way hway
    obtain ⟨i, hi, rfl⟩ := List.mem_iff_getElem.mp hway
    simp [ways, ih₁ h _ (List.getElem_mem _), ih₂ h _ (List.getElem_mem _)]

/-! ## Building patterns -/

def empty : Pattern := step (.guarded fun _ => true)

/-- Accepts nothing, and that only at a place that passes the test. -/
def guarded (ok : Cursor → Bool) : Pattern := step (.guarded ok)

def lineStart : Pattern := guarded (·.isLineStart)
def lineEnd : Pattern := guarded (·.isLineEnd)
def wordEdge : Pattern := guarded (·.isWordEdge)

/-- One character accepted by the test. -/
def one (ok : Char → Bool) : Pattern := step (.one ok)

def char (c : Char) : Pattern := one (· == c)

/-- Exactly this text. -/
def text (s : Line) : Pattern := step (.text s)

def word (s : String) : Pattern := text s.toList

def opt (p : Pattern) : Pattern := alt p empty

/-- One pattern after the other. -/
def inOrder : List Pattern → Pattern
  | [] => empty
  | [p] => p
  | p :: rest => seq p (inOrder rest)

/-- The first of the patterns that fits. -/
def oneOf : List Pattern → Pattern
  | [] => guarded fun _ => false
  | [p] => p
  | p :: rest => alt p (oneOf rest)

/-- One of the words, none of which is the start of another. -/
def words (ss : List String) : Pattern := step (.textOf (ss.map String.toList))

/-- Any number of characters accepted by the test. -/
def run (ok : Char → Bool) : Pattern := loop (.one ok)

/-- At least one character accepted by the test. -/
def run1 (ok : Char → Bool) : Pattern := seq (one ok) (run ok)

def blanks : Pattern := run isBlank
def blanks1 : Pattern := run1 isBlank

/-- Anything on the line. -/
def anything : Pattern := run (· != '\n')

/-- What `body` accepts, as a part of the match. -/
def capture (part : Part) (body : Pattern) : Pattern :=
  inOrder [mark (.opens part), body, mark (.closes part)]

/-! ## Matching -/

/-- A match: its columns and its marks. -/
structure Found where
  start : Nat
  stop : Nat
  marks : List (Mark × Nat)
  deriving DecidableEq, Repr

namespace Found

def part? (f : Found) (part : Part) : Option Capture := do
  return ⟨← f.marks.lookup (.opens part), ← f.marks.lookup (.closes part)⟩

/-- The text of a part, and nothing for a part that is not there. -/
def textOf (f : Found) (line : Line) (part : Part) : Line :=
  match f.part? part with
  | some c => line.slice c.start c.stop
  | none => []

end Found

/-- The preferred match that starts at each place of the line, if there is one. -/
def matchesAt (p : Pattern) (line : Line) : List (Option Found) :=
  let places := Cursor.all line
  List.zipWith (fun c way => way.map fun w => ⟨c.col, w.stop, w.marks⟩) places
    (p.ways places (places.map fun c => some ⟨c.col, []⟩))

/-- The preferred match that starts where the line does. -/
def matchLine (p : Pattern) (line : Line) : Option Found := (p.matchesAt line).head?.join

/-- The first match in the line. -/
def find (p : Pattern) (line : Line) : Option Found := ((p.matchesAt line).filterMap id).head?

/-- The first of the matches that start at column `resume` or later, and those after it that start
where the one before has stopped or later. -/
def apart : Nat → List Found → List Found
  | _, [] => []
  | resume, f :: rest => if resume ≤ f.start then f :: apart f.stop rest else apart resume rest

/-- The matches in the line that do not overlap, from the left. -/
def findAll (p : Pattern) (line : Line) : List Found := apart 0 ((p.matchesAt line).filterMap id)

end Pattern

end ScopeLint
