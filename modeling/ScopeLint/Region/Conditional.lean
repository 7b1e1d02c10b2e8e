import ScopeLint.Region

/-!
# Conditionals

Regions that start with a word such as `if` or `while`. A line starts at most one of them.
-/

namespace ScopeLint.Region

/-! ## Loops that test at the end -/

/-- What reading the loop words of one line leads to. -/
inductive LoopStep where
  | closed (statement : Position)
  /-- So many loops inside the one looked at are still open. -/
  | inside (nested : Nat)
  deriving DecidableEq, Repr

/-- Reads the loop words of line `index`, found in the part of it behind column `offset`. A `while`
that closes no loop is passed over. -/
def readLoopWords (code : Code) (index offset : Nat) (rest : Line) :
    Nat → List Capture → LoopStep
  | nested, [] => .inside nested
  | nested, word :: more =>
    if code.inert.covers ⟨index, offset + word.start⟩ then
      readLoopWords code index offset rest nested more
    else if rest.slice word.start word.stop = "do".toList then
      readLoopWords code index offset rest (nested + 1) more
    else
      match Extent.loopStatement? code ⟨index, offset + word.stop⟩ with
      | none => readLoopWords code index offset rest nested more
      | some statement =>
        match nested with
        | 0 => .closed statement
        | n + 1 => readLoopWords code index offset rest n more

/-- The statement that closes a loop with `nested` loops open inside it, looked for on the lines
from number `index` on and there behind column `offset`. -/
def loopEndFrom (code : Code) : Nat → Nat → Nat → List Line → Option Position
  | _, _, _, [] => none
  | nested, index, offset, line :: rest =>
    if code.inMacro index then loopEndFrom code nested (index + 1) 0 rest
    else
      let part := (line.from? offset).getD []
      let words := (Pattern.loopWord.findAll part).filterMap (·.part? .keyword)
      match readLoopWords code index offset part nested words with
      | .closed statement => some statement
      | .inside nested => loopEndFrom code nested (index + 1) 0 rest

/-- The end of the loop whose `do` ends at `afterDo`. -/
def loopEnd (code : Code) (afterDo : Position) : Except Unbalanced Position :=
  match loopEndFrom code 0 afterDo.line afterDo.col (code.lines.drop afterDo.line) with
  | some p => .ok p
  | none => .error ⟨afterDo.line, .openLoop⟩

/-! ## All conditionals -/

/-- The word of a conditional; `else if` counts as one. -/
def conditionalName (line : Line) (keyword : Capture) : Line :=
  let word := line.slice keyword.start keyword.stop
  let rest := trimStart (line.slice keyword.stop line.size)
  match word == "else".toList, rest with
  | true, 'i' :: 'f' :: more =>
    if more.head?.any fun c => isAlphanumeric c || c == '_' then word else "else if".toList
  | _, _ => word

/-- The end of the conditional with that word, and none for a `while` that closes a loop. -/
def conditionalEnd (code : Code) (index : Nat) (line : Line) (keyword : Capture) :
    Except Unbalanced (Option Position) :=
  let start : Position := ⟨index, keyword.start⟩
  let afterWord : Position := ⟨index, keyword.stop⟩
  let word := line.slice keyword.start keyword.stop
  if word = "while".toList ∧ (Extent.loopStatement? code afterWord).isSome then .ok none
  else if word = "for".toList then
    match Extent.resolve code start .parentheses with
    | .error e => .error e
    | .ok closing =>
      (Extent.resolve code (Extent.behind closing) .bracesOrStatement).map some
  else if word = "do".toList then (loopEnd code afterWord).map some
  else (Extent.resolve code start .bracesOrStatement).map some

/-- The first word of the line that starts a conditional outside comments and literals. -/
def conditionalWord? (code : Code) (index : Nat) (line : Line) : Option Capture :=
  ((Pattern.conditionalHead.findAll line).filterMap (·.part? .keyword)).find? fun word =>
    !code.inert.covers ⟨index, word.start⟩

def conditionalOn (code : Code) (index : Nat) (line : Line) :
    Except Unbalanced (Option Region) :=
  match conditionalWord? code index line with
  | none => .ok none
  | some keyword =>
    (conditionalEnd code index line keyword).map fun stop? => stop?.map fun stop =>
      ⟨.conditional, String.ofList (conditionalName line keyword), ⟨⟨index, keyword.start⟩, stop⟩⟩

def conditionals (code : Code) : Except Unbalanced (List Region) :=
  sweep (outsideMacros code (conditionalOn code)) 0 code.lines

end ScopeLint.Region
