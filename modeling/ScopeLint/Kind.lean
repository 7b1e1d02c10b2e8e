import ScopeLint.Text.Blank
import ScopeLint.Text.Word

/-!
# Kinds of scopes

The kinds a scope may have, and sets of kinds with the names they are configured and shown under.
-/

namespace ScopeLint

/-! ## Sets of kinds -/

/-- A set of kinds of scopes, one bit for each kind that a scope can have in the end. -/
@[ext] structure KindSet where
  bits : BitVec 15
  deriving DecidableEq, Repr, Inhabited

namespace KindSet

/-- The set of the bits of `n`; bits that belong to no kind are dropped. -/
def ofNat (n : Nat) : KindSet := ⟨BitVec.ofNat 15 n⟩

def toNat (s : KindSet) : Nat := s.bits.toNat

instance : EmptyCollection KindSet := ⟨⟨0⟩⟩
instance : Union KindSet := ⟨fun s t => ⟨s.bits ||| t.bits⟩⟩
instance : Inter KindSet := ⟨fun s t => ⟨s.bits &&& t.bits⟩⟩
instance : SDiff KindSet := ⟨fun s t => ⟨s.bits &&& ~~~t.bits⟩⟩

/-- Whether every kind of `t` is in `s`. -/
def includes (s t : KindSet) : Bool := s ∩ t == t

/-- Whether some kind is in both sets. -/
def meets (s t : KindSet) : Bool := s ∩ t != ∅

def source : KindSet := ofNat 0x1
def namespaces : KindSet := ofNat 0x2
def classes : KindSet := ofNat 0x4
def enums : KindSet := ofNat 0x8
def freeFunctions : KindSet := ofNat 0x10
def classFunctions : KindSet := ofNat 0x20
def conditionals : KindSet := ofNat 0x40
def classVariables : KindSet := ofNat 0x80
def functionVariables : KindSet := ofNat 0x100
def globalVariables : KindSet := ofNat 0x200
def globalDefines : KindSet := ofNat 0x400
def singleLineComments : KindSet := ofNat 0x800
def multiLineComments : KindSet := ofNat 0x1000
def stringLiterals : KindSet := ofNat 0x2000
def unknown : KindSet := ofNat 0x4000

def functions : KindSet := freeFunctions ∪ classFunctions
def allVariables : KindSet := classVariables ∪ functionVariables ∪ globalVariables
def comments : KindSet := singleLineComments ∪ multiLineComments
def globals : KindSet := globalVariables ∪ globalDefines ∪ freeFunctions

/-- Every kind but the unknown one. -/
def all : KindSet :=
  source ∪ namespaces ∪ classes ∪ enums ∪ functions ∪ conditionals ∪ allVariables ∪ globalDefines ∪
    comments ∪ stringLiterals

/-- The sets that have a name. Those of several kinds come first, so that a set is shown by them
rather than by their parts. -/
def named : List (String × KindSet) := [
  ("All", all),
  ("Global", globals),
  ("Function", functions),
  ("Variable", allVariables),
  ("Comment", comments),
  ("Source", source),
  ("Namespace", namespaces),
  ("Class", classes),
  ("Enum", enums),
  ("FreeFunction", freeFunctions),
  ("ClassFunction", classFunctions),
  ("Conditional", conditionals),
  ("ClassVariable", classVariables),
  ("FunctionVariable", functionVariables),
  ("GlobalVariable", globalVariables),
  ("GlobalDefine", globalDefines),
  ("SingleLineComment", singleLineComments),
  ("MultiLineComment", multiLineComments),
  ("StringLiteral", stringLiterals),
  ("Unknown", unknown)]

/-- The set of that name, whatever its case and the blanks around it. No other name is known. -/
def ofName (name : String) : KindSet :=
  let wanted := (trim name.toList).map lowerInName
  match named.find? fun entry => entry.1.toList.map lowerInName == wanted with
  | some entry => entry.2
  | none => unknown

/-- The names that make up a set, each one taken out before the next is looked for. -/
def partNames (s : KindSet) : List (String × KindSet) → List String
  | [] => []
  | (name, part) :: rest =>
    if s.includes part then name :: partNames (s \ part) rest else partNames s rest

def text (s : KindSet) : String :=
  match named.find? (·.2 == s) with
  | some entry => entry.1
  | none =>
    match partNames s named with
    | [] => "None"
    | names => "|".intercalate names

end KindSet

/-! ## Single kinds -/

/-- What a scope is. `anyFunction` and `anyVariable` stand for a function or variable whose place in
the unit is not known yet. -/
inductive Kind where
  | source
  | namespaceBlock
  | classBlock
  | enumBlock
  | anyFunction
  | freeFunction
  | classFunction
  | conditional
  | anyVariable
  | classVariable
  | functionVariable
  | globalVariable
  | globalDefine
  | singleLineComment
  | multiLineComment
  | stringLiteral
  | unknown
  deriving DecidableEq, Repr, Inhabited

namespace Kind

def all : List Kind := [
  .source, .namespaceBlock, .classBlock, .enumBlock, .anyFunction, .freeFunction, .classFunction,
  .conditional, .anyVariable, .classVariable, .functionVariable, .globalVariable, .globalDefine,
  .singleLineComment, .multiLineComment, .stringLiteral, .unknown]

/-- The kinds that a scope of this kind may turn out to be. -/
def asSet : Kind → KindSet
  | source => .source
  | namespaceBlock => .namespaces
  | classBlock => .classes
  | enumBlock => .enums
  | anyFunction => .functions
  | freeFunction => .freeFunctions
  | classFunction => .classFunctions
  | conditional => .conditionals
  | anyVariable => .allVariables
  | classVariable => .classVariables
  | functionVariable => .functionVariables
  | globalVariable => .globalVariables
  | globalDefine => .globalDefines
  | singleLineComment => .singleLineComments
  | multiLineComment => .multiLineComments
  | stringLiteral => .stringLiterals
  | unknown => .unknown

/-- Whether a scope of this kind may be of one of the kinds of `s`. -/
def isOf (k : Kind) (s : KindSet) : Bool := k.asSet.meets s

def isUnresolved : Kind → Bool
  | anyFunction | anyVariable => true
  | _ => false

def name : Kind → String
  | source => "Source"
  | namespaceBlock => "Namespace"
  | classBlock => "Class"
  | enumBlock => "Enum"
  | anyFunction => "Function"
  | freeFunction => "FreeFunction"
  | classFunction => "ClassFunction"
  | conditional => "Conditional"
  | anyVariable => "Variable"
  | classVariable => "ClassVariable"
  | functionVariable => "FunctionVariable"
  | globalVariable => "GlobalVariable"
  | globalDefine => "GlobalDefine"
  | singleLineComment => "SingleLineComment"
  | multiLineComment => "MultiLineComment"
  | stringLiteral => "StringLiteral"
  | unknown => "Unknown"

end Kind

/-! ## Laws -/

theorem KindSet.meets_union (s t u : KindSet) :
    s.meets (t ∪ u) = (s.meets t || s.meets u) := by
  have h : s ∩ (t ∪ u) = (s ∩ t) ∪ (s ∩ u) := by
    ext1; exact BitVec.and_or_distrib_left
  have e : ∀ a b : KindSet, (a ∪ b != ∅) = ((a != ∅) || (b != ∅)) := by
    intro a b
    have : a ∪ b = ∅ ↔ a = ∅ ∧ b = ∅ := by
      simp only [KindSet.ext_iff]
      exact BitVec.or_eq_zero_iff
    rw [Bool.eq_iff_iff]
    simp only [bne_iff_ne, Bool.or_eq_true, ne_eq, this]
    grind
  rw [KindSet.meets, h, e]; rfl

end ScopeLint
