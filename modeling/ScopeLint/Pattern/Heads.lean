import ScopeLint.Pattern

/-!
# Patterns of first lines

The patterns that recognise the line on which a namespace, class, enumeration, function, variable,
conditional or macro definition starts.
-/

namespace ScopeLint.Pattern

def isNameChar (c : Char) : Bool := isWord c || c == ':'

/-- Words of the language, which never name a scope other than a conditional. -/
def reservedWords : List String := [
  "if", "else", "else if", "while", "do", "for", "switch", "new", "delete", "typedef", "try",
  "catch", "return", "public", "static", "sizeof"]

/-- A definition of a macro, with nothing before it but blanks and one stretch of comments. -/
def directiveHead : Pattern :=
  inOrder [
    lineStart,
    alt blanks (inOrder [blanks, word "/*", anything, word "*/", blanks]),
    capture .keyword (word "#define")]

/-- A namespace with nothing behind its name but opening braces. -/
def namespaceHead : Pattern :=
  inOrder [
    lineStart, blanks, word "namespace", blanks1, capture .name (run isNameChar), blanks,
    run (· == '{'), blanks, lineEnd]

/-- An enumeration, with or without its name, underlying type and opening brace. -/
def enumHead : Pattern :=
  inOrder [
    lineStart, blanks, opt (inOrder [word "typedef", blanks1]), capture .keyword (word "enum"),
    opt (inOrder [blanks1, words ["class", "struct"], wordEdge]), blanks,
    capture .name (run isWord), blanks, opt (char ':'),
    run (fun c => isWord c || isBlank c || c == ':'), opt (char '{'), blanks, lineEnd]

/-- A class, structure or union, with or without template parameters, bases and opening brace. -/
def classHead : Pattern :=
  inOrder [
    lineStart, blanks,
    opt (inOrder [word "template", blanks, char '<', anything, char '>', blanks]),
    capture .keyword (words ["class", "struct", "union"]), wordEdge, blanks,
    capture .name (run isWord), blanks, opt (inOrder [word "final", blanks]), opt (char ':'),
    run (fun c => isWord c || isBlank c || c == ':' || c == ',' || c == '<' || c == '>'),
    opt (char '{'), blanks, lineEnd]

/-- Takes a character of a name; a tilde is one behind a colon. -/
def nameStep : Step :=
  .orElse (.one isNameChar) fun c => if c.before == some ':' then Step.one (· == '~') c else none

/-- A function: words, each with a blank behind it, a name and parenthesized parameters. -/
def functionHead : Pattern :=
  inOrder [
    lineStart, run (fun c => isNameChar c || isBlank c), guarded (·.before.all isBlank),
    capture .name (inOrder [opt (char '~'), one isNameChar, loop nameStep]), blanks, char '(',
    anything, char ')', anything, lineEnd]

/-- Words that may stand before a type. -/
def typeModifiers : List Line := [
  "const", "static", "unsigned", "signed", "long", "short", "volatile", "extern", "mutable",
  "constexpr", "inline", "struct", "class", "enum", "union"].map String.toList

/-- Takes a word that may stand before a type, and the blanks behind it. -/
def modifierStep : Step := fun c =>
  match c.wordAhead? typeModifiers with
  | none => none
  | some w => if c.blanksAfter w.length = 0 then none else some (w.length + c.blanksAfter w.length)

/-- Takes array bounds: one word or nothing in brackets. -/
def boundsStep : Step := fun c =>
  match c.rest with
  | '[' :: rest =>
    let inside := rest.takeWhile isWord
    if (rest.drop inside.length).head? = some ']' then some (inside.length + 2) else none
  | _ => none

/-- Words that start a statement which only looks like a variable. -/
def statementWords : List Line := [
  "return", "delete", "throw", "goto", "case", "using", "typedef", "else"].map String.toList

/-- Words with `::` behind each of them. -/
def qualifiers : Pattern :=
  opt (inOrder [
    loop (.orElse (.one isWord) (.text "::".toList)), guarded (·.before == some ':')])

/-- A variable: a type, a name, and perhaps array bounds and an initializer, up to a semicolon. -/
def variableHead : Pattern :=
  inOrder [
    lineStart, blanks, guarded fun c => (c.wordAhead? statementWords).isNone,
    loop modifierStep, qualifiers, run1 isWord,
    opt (inOrder [
      char '<',
      run fun c =>
        isWord c || isBlank c || c == ':' || c == ',' || c == '*' || c == '<' || c == '>',
      char '>']),
    alt (inOrder [blanks, run1 (fun c => c == '*' || c == '&'), blanks]) blanks1,
    capture .name (run1 isWord), loop boundsStep, blanks,
    opt (oneOf [
      inOrder [char '(', anything, char ')'],
      inOrder [char '\x7b', anything, char '\x7d'],
      inOrder [char '=', one (· != '='), anything]]),
    blanks, char ';', blanks, lineEnd]

/-- A word that starts a conditional, between brackets, blanks or ends of the line. -/
def conditionalHead : Pattern :=
  inOrder [
    alt lineStart (one fun c => isBlank c || c == '\x7d' || c == ';'),
    capture .keyword (words ["if", "else", "for", "switch", "while", "do"]),
    alt (one fun c => c == '(' || c == '\x7b' || isBlank c) lineEnd]

/-- A whole word that opens or closes a loop. -/
def loopWord : Pattern :=
  inOrder [
    alt lineStart (one fun c => !isWord c),
    capture .keyword (words ["while", "do"]),
    alt (one fun c => !isWord c) lineEnd]

/-- The word with no word character on either side. -/
def wholeWord (s : String) : Pattern := inOrder [wordEdge, word s, wordEdge]

/-- The name of a macro where it is defined, and the parenthesis of its parameters if it directly
follows. -/
def macroHead : Pattern :=
  inOrder [
    word "#define", blanks1, capture .name (run1 isWord), opt (capture .parameters (char '('))]

end ScopeLint.Pattern
