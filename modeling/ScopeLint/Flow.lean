import ScopeLint.Finding
import ScopeLint.Flow.Value
import ScopeLint.Outline
import ScopeLint.Pattern.Heads

/-!
# Flow checks

Two checks follow the values of local variables from line to line: pointers must not be used while
they hold nothing, and primitive variables must not be read before they have a value.
-/

namespace ScopeLint

namespace Flow

/-! ## Patterns -/

/-- What may follow the name of a variable that is declared or used. -/
def nameEnd : Pattern :=
  .alt .blanks1 (.one fun c => c == '=' || c == '(' || c == '\x7b' || c == ';')

def lineStartOrBlank : Pattern := .alt .lineStart (.one isBlank)

/-- The declaration of a pointer, with the star next to the name. -/
def pointerDeclaration (name : List Char) : Pattern :=
  .inOrder [.blanks1, .char '*', .text name, nameEnd]

def primitiveTypes : List String := ["bool", "int", "char", "double", "float", "long", "short"]

def primitiveDeclaration (name : List Char) : Pattern :=
  .inOrder [
    lineStartOrBlank, .words primitiveTypes, .char ' ', .text name,
    nameEnd]

/-- A use of a variable that stands by itself. -/
def mention (name : List Char) : Pattern :=
  .inOrder [lineStartOrBlank, .capture .name (.text name), nameEnd]

/-- The column behind the first mention on a line that is outside comments and literals. A line
without the name need not be read for it: see `findAll_mention_of_not_holds`. -/
def mentionEnd? (inert : Inert) (name : List Char) (index : Nat) (line : Line) : Option Nat :=
  if line.holds name then
    (((mention name).findAll line).find? fun f =>
      (f.part? .name).any fun c => !inert.covers ⟨index, c.start⟩).map (·.stop)
  else none

/-- No place of a line without the name has the name next. -/
theorem not_isPrefixOf_of_not_holds {name line : Line} {before : Option Char} {col : Nat}
    (h : line.holds name = false) : ∀ c ∈ Cursor.allFrom before col line,
      name.isPrefixOf c.rest = false := by
  induction line generalizing before col with
  | nil =>
    intro c hc
    obtain rfl : c = ⟨before, col, []⟩ := by simpa [Cursor.allFrom] using hc
    cases name with
    | nil => simp [Line.holds] at h
    | cons x name => rfl
  | cons x rest ih =>
    intro c hc
    simp only [Line.holds, Bool.or_eq_false_iff] at h
    rcases List.mem_cons.mp hc with rfl | hc
    · exact h.1
    · exact ih h.2 c hc

/-- A line without the name has no mention of it. -/
theorem findAll_mention_of_not_holds {name line : Line} (h : line.holds name = false) :
    (mention name).findAll line = [] := by
  have hname : ∀ c ∈ Cursor.all line, Step.text name c = none := fun c hc => by
    simp [Step.text, not_isPrefixOf_of_not_holds h c hc]
  have hnone : ∀ f ∈ (mention name).matchesAt line, f = none := fun f hf => by
    obtain ⟨i, hi, rfl⟩ := List.mem_iff_getElem.mp hf
    simp only [Pattern.matchesAt, List.getElem_zipWith, Option.map_eq_none_iff]
    refine Pattern.ways_eq_none lineStartOrBlank ?_ _ (List.getElem_mem _)
    refine Pattern.ways_eq_none (.mark (.opens .name)) ?_
    exact Pattern.stepWays_eq_none (.inl hname)
  have hnil : ((mention name).matchesAt line).filterMap id = [] :=
    List.filterMap_eq_nil_iff.mpr hnone
  rw [Pattern.findAll, hnil]
  rfl

/-! ## Following a value -/

/-- The first of the lines that reads the variable while its value is bad. Each line either assigns
a new value or reads the one before, by its first mention of the variable. -/
def firstBadRead (inert : Inert) (name : List Char) (isBad : Line → Bool) :
    Line → List (Line × Nat) → Option Nat
  | _, [] => none
  | value, (line, index) :: rest =>
    match mentionEnd? inert name index line with
    | none => firstBadRead inert name isBad value rest
    | some stop =>
      match assigned? line (stop - 1) false with
      | some assigned => firstBadRead inert name isBad assigned rest
      | none =>
        if isBad value then some index else firstBadRead inert name isBad value rest

/-- The function or conditional around a variable. -/
def trackedParent? (o : Outline) (id : ScopeId) : Option Scope :=
  (o.get id).parent.bind fun parent =>
    let p := o.get parent
    if p.kind.isOf (.functions ∪ .conditionals) then some p else none

/-- The lines behind the declaration of a variable and before the last line around it. -/
def trackedLines (o : Outline) (declared : Nat) (parent : Scope) : List (Line × Nat) :=
  o.source.lines.zipIdx.filter fun entry =>
    decide (declared < entry.2 ∧ entry.2 < parent.span.stop.line)

/-- The first line that uses the pointer while it holds nothing. -/
def nullUse? (o : Outline) (id : ScopeId) : Option Nat := do
  let s := o.get id
  let name := s.name.toList
  let declared := s.span.start.line
  let declaration := o.source.line declared
  let found ← (pointerDeclaration name).find declaration
  let parent ← trackedParent? o id
  let value := (assigned? declaration (found.stop - 1) true).getD []
  firstBadRead o.inert name isNullValue value (trackedLines o declared parent)

/-- The first line that reads the primitive variable before it has a value. -/
def uninitializedUse? (o : Outline) (id : ScopeId) : Option Nat := do
  let s := o.get id
  let name := s.name.toList
  let declared := s.span.start.line
  let declaration := o.source.line declared
  let _ ← (primitiveDeclaration name).find declaration
  let parent ← trackedParent? o id
  let value := ((mentionEnd? o.inert name declared declaration).bind fun stop =>
    assigned? declaration (stop - 1) true).getD []
  firstBadRead o.inert name (· == []) value (trackedLines o declared parent)

/-! ## Checks -/

/-- A flow check: the number, name and description it is reported under. -/
structure Check where
  id : Nat
  name : String
  description : String
  deriving DecidableEq, Repr

def nullPointerCheck : Check := ⟨1, "NullPointer", "Pointers must not be used while NULL"⟩

def uninitializedCheck : Check :=
  ⟨2, "Uninitialized", "Primitive variables must be initialized before use"⟩

def checks : List Check := [nullPointerCheck, uninitializedCheck]

end Flow

/-- All variables of a unit, each scope before those inside it. -/
def Outline.allVariables (o : Outline) : List ScopeId := o.descendantsOf Outline.root .allVariables

namespace Flow

/-- The findings of one check, given where each variable fails it and what is said then. -/
def findingsOf (o : Outline) (use? : ScopeId → Option Nat) (describe : String → String) :
    List Finding :=
  o.allVariables.filterMap fun id =>
    (use? id).map fun line => ⟨.error, describe (o.get id).name, line, none⟩

/-- The findings of both checks. -/
def check (o : Outline) : Findings :=
  let null := findingsOf o (nullUse? o) fun name =>
    "`" ++ name ++ "` will throw a NULL pointer exception"
  let uninitialized := findingsOf o (uninitializedUse? o) fun name =>
    "`" ++ name ++ "` is used before initialization"
  ((∅ : Findings).extend nullPointerCheck.id null).extend uninitializedCheck.id uninitialized

end Flow

end ScopeLint
