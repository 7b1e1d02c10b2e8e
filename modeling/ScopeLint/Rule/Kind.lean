import ScopeLint.Kind

/-!
# Kinds of rules

The checks a rule can ask for: their names, their descriptions, the scopes they look at unless told
otherwise, and which of them contradict each other.
-/

namespace ScopeLint

inductive RuleKind where
  | unknown
  | noAuto
  | noDefine
  | noMacroFunctions
  | startWithX
  | endWithX
  | maxCharactersPerLine
  | curlyBracketsOpenSameLine
  | curlyBracketsOpenSeparateLine
  | curlyBracketsCloseSameLine
  | curlyBracketsCloseSeparateLine
  | alwaysHaveCurlyBrackets
  | noConstCast
  | startWithLowerCase
  | startWithUpperCase
  | nameMaxCharacter
  | singleReturn
  | noGoto
  | tabIndentation
  deriving DecidableEq, Repr, Inhabited

/-- What is said of a kind of rule: its description, where `%rs` stands for the scopes it checks and
`%rp` for its parameter, the scopes it checks if it is set to all, and those it never checks. -/
structure RuleProfile where
  description : String
  usual : KindSet
  ignored : KindSet

/-- Scopes with a name of their own. -/
def KindSet.nameable : KindSet := namespaces ∪ classes ∪ enums ∪ functions ∪ allVariables

/-- Scopes with a body in braces. -/
def KindSet.bracketed : KindSet := namespaces ∪ classes ∪ enums ∪ functions ∪ conditionals

namespace RuleKind

def all : List RuleKind := [
  unknown, noAuto, noDefine, noMacroFunctions, startWithX, endWithX, maxCharactersPerLine,
  curlyBracketsOpenSameLine, curlyBracketsOpenSeparateLine, curlyBracketsCloseSameLine,
  curlyBracketsCloseSeparateLine, alwaysHaveCurlyBrackets, noConstCast, startWithLowerCase,
  startWithUpperCase, nameMaxCharacter, singleReturn, noGoto, tabIndentation]

def name : RuleKind → String
  | unknown => "Unknown"
  | noAuto => "NoAuto"
  | noDefine => "NoDefine"
  | noMacroFunctions => "NoMacroFunctions"
  | startWithX => "StartWithX"
  | endWithX => "EndWithX"
  | maxCharactersPerLine => "MaxCharactersPerLine"
  | curlyBracketsOpenSameLine => "CurlyBracketsOpenSameLine"
  | curlyBracketsOpenSeparateLine => "CurlyBracketsOpenSeparateLine"
  | curlyBracketsCloseSameLine => "CurlyBracketsCloseSameLine"
  | curlyBracketsCloseSeparateLine => "CurlyBracketsCloseSeparateLine"
  | alwaysHaveCurlyBrackets => "AlwaysHaveCurlyBrackets"
  | noConstCast => "NoConstCast"
  | startWithLowerCase => "StartWithLowerCase"
  | startWithUpperCase => "StartWithUpperCase"
  | nameMaxCharacter => "NameMaxCharacter"
  | singleReturn => "SingleReturn"
  | noGoto => "NoGoto"
  | tabIndentation => "TabIndentation"

/-- The kind of that name, whatever its case and the blanks around it. -/
def ofName? (name : String) : Option RuleKind :=
  let wanted := (trim name.toList).map lowerInName
  all.find? fun kind => kind.name.toList.map lowerInName == wanted

/-- The kinds that contradict each other, each pair in one order. -/
def conflicts : List (RuleKind × RuleKind) := [
  (curlyBracketsOpenSameLine, curlyBracketsOpenSeparateLine),
  (curlyBracketsCloseSameLine, curlyBracketsCloseSeparateLine),
  (startWithLowerCase, startWithUpperCase),
  (startWithLowerCase, startWithX),
  (startWithUpperCase, startWithX)]

def conflictsWith (a b : RuleKind) : Bool := conflicts.contains (a, b) || conflicts.contains (b, a)

def profile : RuleKind → RuleProfile
  | unknown => ⟨"Rule is not recognized and was ignored", .all, ∅⟩
  | noAuto => ⟨"%rs must not be declared with `auto`", .allVariables, ∅⟩
  | noDefine => ⟨"Macros must not be defined", .globalDefines, ∅⟩
  | noMacroFunctions => ⟨"Function-like macros must not be defined", .globalDefines, ∅⟩
  | startWithX => ⟨"%rs names must start with `%rp`", .nameable, ∅⟩
  | endWithX => ⟨"%rs names must end with `%rp`", .nameable, ∅⟩
  | maxCharactersPerLine => ⟨"Lines must not be longer than %rp characters", .source, ∅⟩
  | curlyBracketsOpenSameLine =>
    ⟨"Opening braces of %rs must be on the line of their declaration", .bracketed, ∅⟩
  | curlyBracketsOpenSeparateLine =>
    ⟨"Opening braces of %rs must be on their own line", .bracketed, ∅⟩
  | curlyBracketsCloseSameLine =>
    ⟨"Closing braces of %rs must share their line with code", .bracketed, ∅⟩
  | curlyBracketsCloseSeparateLine =>
    ⟨"Closing braces of %rs must be on their own line", .bracketed, ∅⟩
  | alwaysHaveCurlyBrackets =>
    ⟨"%rs bodies must be enclosed in curly brackets", .conditionals, ∅⟩
  | noConstCast => ⟨"`const_cast` must not be used in %rs", .source, ∅⟩
  | startWithLowerCase => ⟨"%rs names must start with a lower case letter", .nameable, ∅⟩
  | startWithUpperCase => ⟨"%rs names must start with an upper case letter", .nameable, ∅⟩
  | nameMaxCharacter => ⟨"%rs names must not be longer than %rp characters", .nameable, ∅⟩
  | singleReturn => ⟨"%rs must have a single return statement", .functions, ∅⟩
  | noGoto => ⟨"`goto` must not be used in %rs", .functions, ∅⟩
  | tabIndentation => ⟨"%rs must be indented with tabs", .source, ∅⟩

end RuleKind

/-- The scopes a rule looks at: the usual ones if it is set to all, else those it is set to, and in
either case without those to be ignored. -/
def KindSet.applicable (wanted usual ignored : KindSet) : KindSet :=
  (if wanted.includes .all then usual else wanted) \ ignored

end ScopeLint
