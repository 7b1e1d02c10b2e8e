import ScopeLint.Region.Conditional

/-!
# The regions of a unit

The regions of a unit in the order they are looked for: comments, macro definitions, and then kind
by kind. The first kind whose search fails decides the error.
-/

namespace ScopeLint.Region

/-! ## Namespaces, classes and enumerations -/

/-- A region whose start is given and whose end is that of its braces; none where the start is in a
comment or literal. -/
def braced? (code : Code) (kind : Kind) (name : Line) (start : Position) :
    Except Unbalanced (Option Region) :=
  if code.inert.covers start then .ok none
  else (Extent.resolve code start .braces).map fun stop =>
    some ⟨kind, String.ofList name, ⟨start, stop⟩⟩

/-- A namespace starts at the first character of its line that is not blank. -/
def namespaceOn (code : Code) (index : Nat) (line : Line) : Except Unbalanced (Option Region) :=
  match Pattern.namespaceHead.matchLine line with
  | none => .ok none
  | some f => braced? code .namespaceBlock (f.textOf line .name) ⟨index, line.firstCodeCol⟩

def namespaces (code : Code) : Except Unbalanced (List Region) :=
  sweep (outsideMacros code (namespaceOn code)) 0 code.lines

/-- A class, structure or union starts at its keyword. -/
def classOn (code : Code) (index : Nat) (line : Line) : Except Unbalanced (Option Region) :=
  match Pattern.classHead.matchLine line with
  | none => .ok none
  | some f =>
    let start := match f.part? .keyword with
      | some keyword => keyword.start
      | none => 0
    braced? code .classBlock (f.textOf line .name) ⟨index, start⟩

def classes (code : Code) : Except Unbalanced (List Region) :=
  sweep (outsideMacros code (classOn code)) 0 code.lines

/-- An enumeration starts at the first character of its line that is not blank. -/
def enumOn (code : Code) (index : Nat) (line : Line) : Except Unbalanced (Option Region) :=
  match Pattern.enumHead.matchLine line with
  | none => .ok none
  | some f => braced? code .enumBlock (f.textOf line .name) ⟨index, line.firstCodeCol⟩

/-- The enumerations on the lines from number `index` on that start on line `resume` or later. An
enumeration holds no other, so that the search goes on behind its last line. -/
def enumsFrom (code : Code) (resume : Nat) : Nat → List Line → Except Unbalanced (List Region)
  | _, [] => .ok []
  | index, line :: rest =>
    if index < resume then enumsFrom code resume (index + 1) rest
    else
      match outsideMacros code (enumOn code) index line with
      | .error e => .error e
      | .ok none => enumsFrom code resume (index + 1) rest
      | .ok (some r) => (enumsFrom code (r.span.stop.line + 1) (index + 1) rest).map (r :: ·)

def enums (code : Code) : Except Unbalanced (List Region) := enumsFrom code 0 0 code.lines

/-! ## Functions and variables -/

/-- A function starts at the first character of its line that is not blank, and ends with its body
or with the semicolon of its declaration, whichever comes first behind the start of its name. -/
def functionOn (code : Code) (index : Nat) (line : Line) : Except Unbalanced (Option Region) :=
  match (Pattern.functionHead.matchLine line).bind (·.part? .name) with
  | none => .ok none
  | some name =>
    let start : Position := ⟨index, line.firstCodeCol⟩
    if code.inert.covers start || code.inert.covers ⟨index, name.start⟩ then .ok none
    else (Extent.resolve code ⟨index, name.start⟩ .bracesOrStatement).map fun stop =>
      some ⟨.anyFunction, String.ofList (line.slice name.start name.stop), ⟨start, stop⟩⟩

def functions (code : Code) : Except Unbalanced (List Region) :=
  sweep (outsideMacros code (functionOn code)) 0 code.lines

/-- A variable takes one line, from its first to its last character that is not blank. -/
def variableOn (code : Code) (index : Nat) (line : Line) : Option Region :=
  match (Pattern.variableHead.matchLine line).bind (·.part? .name) with
  | none => none
  | some name =>
    let start : Position := ⟨index, line.firstCodeCol⟩
    if code.inert.covers start || code.inert.covers ⟨index, name.start⟩ then none
    else
      some ⟨.anyVariable, String.ofList (line.slice name.start name.stop),
        ⟨start, ⟨index, Line.lastCol (trimEnd line)⟩⟩⟩

def allVariables (code : Code) : Except Unbalanced (List Region) :=
  sweep (outsideMacros code fun index line => .ok (variableOn code index line)) 0 code.lines

/-! ## All of them -/

def ofComment (s : Source) (c : Comment) : Region :=
  ⟨c.style.kind, String.ofList (s.textOf c.span), c.span⟩

def ofMacro (d : MacroDefinition) : Region := ⟨.globalDefine, d.text, d.span⟩

/-- The searches for structure, in order. -/
def searches : List (Code → Except Unbalanced (List Region)) :=
  [namespaces, enums, classes, functions, allVariables, conditionals]

/-- The results of all searches one after the other, or the first error. -/
def runSearches (code : Code) :
    List (Code → Except Unbalanced (List Region)) → Except Unbalanced (List Region)
  | [] => .ok []
  | search :: rest =>
    match search code with
    | .error e => .error e
    | .ok found => (runSearches code rest).map (found ++ ·)

def ofCode (code : Code) : Except Unbalanced (List Region) :=
  (runSearches code searches).map fun found =>
    code.inert.comments.toList.map (ofComment code.source) ++ code.macros.map ofMacro ++ found

end ScopeLint.Region
