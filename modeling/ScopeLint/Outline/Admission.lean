import ScopeLint.Region
import ScopeLint.Text.Blank

/-!
# Which regions become scopes

Not every region is a scope: a name may be reserved, a region may be commented out, a call in a body
looks like a function, and a function that is only declared looks like a variable.
-/

namespace ScopeLint.Region

/-! ## Parameter lists -/

def isTypeChar (c : Char) : Bool :=
  isAlphanumeric c || c == '_' || c == ':' || c == '<' || c == '>'

/-- Whether the text before any `=` is made of two or more words that may be types and names. -/
def isParameter (text : List Char) : Bool :=
  let declaration := text.takeWhile (· != '=')
  let words := (splitAt (fun c => isBlank c || c == '*' || c == '&') declaration).filter (· ≠ [])
  2 ≤ words.length && words.all (·.all isTypeChar)

/-- Whether the text declares parameters, rather than giving values to construct something from. -/
def isParameterList (text : List Char) : Bool :=
  let text := trim text
  text.isEmpty || text == "void".toList || (splitAt (· == ',') text).all isParameter

/-- The text between the first opening parenthesis of the region and the last closing one on its
line. -/
def parenthesizedText (s : Source) (r : Region) : Option Line := do
  let line := s.line r.span.start.line
  let tail ← line.from? r.span.start.col
  let opening ← (tail.colsOf '(').head?
  let closing ← (line.colsOf ')').getLast?
  line.cut? (r.span.start.col + opening + 1) closing

/-! ## Admission -/

/-- Only a conditional may bear a reserved name. -/
def hasFreeName (r : Region) : Bool :=
  r.kind == .conditional || !Pattern.reservedWords.contains r.name

def isComment (r : Region) : Bool := r.kind.isOf .comments

/-- Functions and conditionals: what holds calls rather than declarations. -/
def isBody (r : Region) : Bool := r.kind == .anyFunction || r.kind == .conditional

/-- Whether the region is strictly within one of the others. -/
def isInside (r : Region) (others : List Region) : Bool :=
  others.any fun other => decide (r.span.StrictlyWithin other.span)

/-- Whether a variable is the same as one of the functions and declares parameters. -/
def isPrototype (s : Source) (functions : List Region) (r : Region) : Bool :=
  r.kind == .anyVariable &&
    functions.any (fun f => f.span == r.span && f.name == r.name) &&
    (parenthesizedText s r).any isParameterList

/-- The regions that become scopes, in the same order. -/
def admitted (s : Source) (regions : List Region) : List Region :=
  let named := regions.filter hasFreeName
  let comments := named.filter isComment
  let visible := named.filter fun r => !r.isInside comments
  let bodies := visible.filter isBody
  let outer := visible.filter fun r => !(r.kind == .anyFunction && r.isInside bodies)
  let functions := outer.filter (·.kind == .anyFunction)
  outer.filter fun r => !isPrototype s functions r

end ScopeLint.Region
