import ScopeLint.Finding
import ScopeLint.Outline
import ScopeLint.Pattern.Heads
import ScopeLint.Rule

/-!
# Checks

What each kind of rule finds in an outline. Findings come in the order of the scopes, each scope
before those inside it, or in the order of the lines where a rule looks at lines.
-/

namespace ScopeLint

/-! ## Places in a scope -/

namespace Outline

/-- The scopes of the given kinds, each before those inside it. -/
def scopesOf (o : Outline) (kinds : KindSet) : List ScopeId :=
  o.preorder.filter fun id => (o.get id).kind.isOf kinds

/-- The lines of a span with their numbers. -/
def linesWithin (o : Outline) (span : Span) : List (Line × Nat) :=
  o.source.lines.zipIdx.filter fun entry => decide (span.HasLine entry.2)

/-- The places of a whole word on a line. -/
def wordsOn (word : String) (entry : Line × Nat) : List Position :=
  ((Pattern.wholeWord word).findAll entry.1).map fun f => ⟨entry.2, f.start⟩

/-- The places of a whole word in a span, outside comments and literals. -/
def wordsWithin (o : Outline) (span : Span) (word : String) : List Position :=
  ((o.linesWithin span).flatMap (wordsOn word)).filter fun p =>
    decide (p ∈ span) && !o.inert.covers p

/-- The places of a byte on a line. -/
def bytesOn (byte : UInt8) (entry : Line × Nat) : List Position :=
  (Utf8.encode entry.1).zipIdx.filterMap fun (b, col) =>
    if b = byte then some ⟨entry.2, col⟩ else none

/-- The first place of a character of ASCII in a span, outside comments and literals. -/
def firstWithin? (o : Outline) (span : Span) (c : Char) : Option Position :=
  ((o.linesWithin span).flatMap (bytesOn c.toUInt8)).find? fun p =>
    decide (p ∈ span) && !o.inert.covers p

/-- Whether anything but blanks and comments precedes a position on its line. -/
def hasCodeBefore (o : Outline) (p : Position) : Bool :=
  ((Utf8.encode (o.source.line p.line)).take p.col).zipIdx.any fun (b, col) =>
    !isBlankByte b && !o.inert.inComment ⟨p.line, col⟩

/-- The numbers of the lines that the scopes cover, in ascending order. -/
def coveredLines (o : Outline) (ids : List ScopeId) : List Nat :=
  (List.range o.source.lines.length).filter fun line =>
    ids.any fun id => decide ((o.get id).span.HasLine line)

end Outline

namespace Rule

/-! ## Names -/

/-- A finding for each scope with a name that fails the test. -/
def checkNames (o : Outline) (ids : List ScopeId) (isValid : List Char → Bool)
    (describe : String → String) : List Finding :=
  ids.filterMap fun id =>
    let s := o.get id
    let name := s.unqualifiedName
    if name.isEmpty || isValid name.toList then none
    else some (Finding.warningAt s.span.start.line s.span.start.col (describe name))

def startsUpper (name : List Char) : Bool := name.head?.any isUpperCase
def startsLower (name : List Char) : Bool := name.head?.any isLowerCase

/-! ## Macros -/

/-- The match of a macro's name in the text of its definition. -/
def macroName? (s : Scope) : Option (Pattern.Found × String) :=
  (Pattern.macroHead.find s.name.toList).map fun f =>
    (f, String.ofList (f.textOf s.name.toList .name))

def checkNoDefine (o : Outline) (ids : List ScopeId) : List Finding :=
  ids.map fun id =>
    let s := o.get id
    let name := ((macroName? s).map (·.2)).getD ""
    Finding.warningAt s.span.start.line s.span.start.col ("Macro `" ++ name ++ "` is defined")

def checkNoMacroFunctions (o : Outline) (ids : List ScopeId) : List Finding :=
  ids.filterMap fun id =>
    let s := o.get id
    (macroName? s).bind fun (f, name) =>
      (f.part? .parameters).map fun _ =>
        Finding.warningAt s.span.start.line s.span.start.col
          ("Function-like macro `" ++ name ++ "`")

/-! ## Words -/

def checkNoAuto (o : Outline) (ids : List ScopeId) : List Finding :=
  ids.filterMap fun id =>
    let s := o.get id
    (o.wordsWithin s.span "auto").head?.map fun p =>
      Finding.warningAt p.line p.col ("`" ++ s.name ++ "` is declared with `auto`")

/-- A finding for each place of the word in one of the scopes, in reading order. -/
def checkNoWord (o : Outline) (ids : List ScopeId) (word : String) : List Finding :=
  ((o.source.lines.zipIdx.flatMap (Outline.wordsOn word)).filter fun p =>
    !o.inert.covers p && ids.any fun id => decide (p ∈ (o.get id).span)).map fun p =>
      Finding.warningAt p.line p.col ("`" ++ word ++ "` is used")

def checkSingleReturn (o : Outline) (ids : List ScopeId) : List Finding :=
  ids.flatMap fun id =>
    let s := o.get id
    ((o.wordsWithin s.span "return").drop 1).map fun p =>
      Finding.warningAt p.line p.col ("`" ++ s.name ++ "` has more than one return statement")

/-! ## Braces -/

/-- Whether a brace should share its line with code. -/
inductive BraceStyle where
  | sameLine
  | separateLine
  deriving DecidableEq, Repr

/-- Whether a brace with or without code before it is as the style asks for. -/
def BraceStyle.accepts : BraceStyle → Bool → Bool
  | sameLine, codeBefore => codeBefore
  | separateLine, codeBefore => !codeBefore

def openingText (name : String) : BraceStyle → String
  | .sameLine => "Opening brace of `" ++ name ++ "` should be on the same line as its declaration"
  | .separateLine => "Opening brace of `" ++ name ++ "` should be on its own line"

def closingText (name : String) : BraceStyle → String
  | .sameLine => "Closing brace of `" ++ name ++ "` should share its line with code"
  | .separateLine => "Closing brace of `" ++ name ++ "` should be on its own line"

def checkOpening (o : Outline) (ids : List ScopeId) (style : BraceStyle) : List Finding :=
  ids.filterMap fun id =>
    let s := o.get id
    (o.firstWithin? s.span '\x7b').bind fun p =>
      if style.accepts (o.hasCodeBefore p) then none
      else some (Finding.warningAt p.line p.col (openingText s.name style))

/-- Scopes of one line have no closing brace to place. -/
def checkClosing (o : Outline) (ids : List ScopeId) (style : BraceStyle) : List Finding :=
  ids.filterMap fun id =>
    let s := o.get id
    let p := s.span.stop
    if s.span.start.line = p.line ∨ o.source.byteAt? p ≠ some '\x7d'.toUInt8 then none
    else if style.accepts (o.hasCodeBefore p) then none
    else some (Finding.warningAt p.line p.col (closingText s.name style))

def checkBraced (o : Outline) (ids : List ScopeId) : List Finding :=
  ids.filterMap fun id =>
    let s := o.get id
    match o.firstWithin? s.span '\x7b' with
    | some _ => none
    | none =>
      some (Finding.warningAt s.span.start.line s.span.start.col
        ("`" ++ s.name ++ "` body is not enclosed in curly brackets"))

/-! ## Lines -/

def checkLineLength (o : Outline) (ids : List ScopeId) (limit : Nat) : List Finding :=
  (o.coveredLines ids).filterMap fun index =>
    let length := (o.source.line index).length
    if limit < length then
      some (Finding.warningAt index limit
        s!"Line is {length} characters long, maximum is {limit}")
    else none

/-- Blank lines, and lines whose first character is in a comment or literal, may be indented in any
way. -/
def checkTabs (o : Outline) (ids : List ScopeId) : List Finding :=
  (o.coveredLines ids).filterMap fun index =>
    let line := o.source.line index
    let indent := line.takeWhile isBlank
    if indent = line ∨ o.inert.covers ⟨index, Line.size indent⟩ then none
    else
      (Line.colsOf indent ' ').head?.map fun col =>
        Finding.warningAt index col "Line is indented with spaces"

/-! ## Rules -/

/-- The longest line if a rule does not say. -/
def defaultLineLength : Nat := 80

/-- The longest name if a rule does not say. -/
def defaultNameLength : Nat := 32

/-- The findings of a rule in an outline. -/
def check (r : Rule) (o : Outline) : List Finding :=
  let ids := o.scopesOf r.applicable
  match r.kind with
  | .unknown => [⟨.error, "Unknown rule `" ++ r.name ++ "`", 0, none⟩]
  | .noAuto => checkNoAuto o ids
  | .noDefine => checkNoDefine o ids
  | .noMacroFunctions => checkNoMacroFunctions o ids
  | .startWithX =>
    match r.parameter with
    | none => []
    | some start =>
      checkNames o ids (start.toList.isPrefixOf ·) fun name =>
        "`" ++ name ++ "` does not start with `" ++ start ++ "`"
  | .endWithX =>
    match r.parameter with
    | none => []
    | some stop =>
      checkNames o ids (stop.toList.isSuffixOf ·) fun name =>
        "`" ++ name ++ "` does not end with `" ++ stop ++ "`"
  | .maxCharactersPerLine => checkLineLength o ids (r.number?.getD defaultLineLength)
  | .curlyBracketsOpenSameLine => checkOpening o ids .sameLine
  | .curlyBracketsOpenSeparateLine => checkOpening o ids .separateLine
  | .curlyBracketsCloseSameLine => checkClosing o ids .sameLine
  | .curlyBracketsCloseSeparateLine => checkClosing o ids .separateLine
  | .alwaysHaveCurlyBrackets => checkBraced o ids
  | .noConstCast => checkNoWord o ids "const_cast"
  | .startWithLowerCase =>
    checkNames o ids (!startsUpper ·) fun name =>
      "`" ++ name ++ "` starts with an upper case letter"
  | .startWithUpperCase =>
    checkNames o ids (!startsLower ·) fun name =>
      "`" ++ name ++ "` starts with a lower case letter"
  | .nameMaxCharacter =>
    let limit := r.number?.getD defaultNameLength
    checkNames o ids (·.length ≤ limit) fun name =>
      "`" ++ name ++ s!"` is longer than {limit} characters"
  | .singleReturn => checkSingleReturn o ids
  | .noGoto => checkNoWord o ids "goto"
  | .tabIndentation => checkTabs o ids

end Rule

/-- The findings of all rules in an outline, each under the number of its rule. -/
def Rulebook.check (book : Rulebook) (o : Outline) : Findings :=
  book.rules.foldl (fun all r => all.extend r.id (r.check o)) ∅

end ScopeLint
