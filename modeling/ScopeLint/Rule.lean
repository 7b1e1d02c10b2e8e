import ScopeLint.Rule.Kind

/-!
# Rules

A rule asks for a check, says where it applies, and may give it a parameter. A rulebook has the
rules of a run in the order they were configured. No two of them conflict.
-/

namespace ScopeLint

/-! ## Placeholders -/

/-- What follows `start` in the text, if the text starts with it. -/
def dropStart? : List Char → List Char → Option (List Char)
  | [], text => some text
  | _ :: _, [] => none
  | c :: start, d :: text => if c = d then dropStart? start text else none

/-- The text with `value` in place of the first `mark`. -/
def replaceFirst (mark value : List Char) : List Char → List Char
  | [] => if mark = [] then value else []
  | c :: rest =>
    match dropStart? mark (c :: rest) with
    | some tail => value ++ tail
    | none => c :: replaceFirst mark value rest

/-! ## Numbers -/

/-- The number of a text of decimal digits, with perhaps a plus sign in front, as long as 64 bits
hold it. -/
def wordOfDigits? (text : List Char) : Option Nat :=
  let digits := match text with
    | '+' :: rest => rest
    | _ => text
  if digits ≠ [] ∧ digits.all Char.isDigit then
    let n := digits.foldl (fun n c => n * 10 + (c.toNat - '0'.toNat)) 0
    if n < UInt64.size then some n else none
  else none

/-! ## Rules -/

structure Rule where
  id : Nat
  kind : RuleKind
  /-- The name as it was configured. -/
  name : String
  appliedTo : KindSet
  parameter : Option String
  deriving DecidableEq, Repr, Inhabited

namespace Rule

/-- The scopes that the rule looks at. -/
def applicable (r : Rule) : KindSet :=
  KindSet.applicable r.appliedTo r.kind.profile.usual r.kind.profile.ignored

/-- Whether the rules check the same with the same parameter for the same scopes. -/
def duplicates (a b : Rule) : Bool :=
  a.kind == b.kind && a.parameter == b.parameter && a.appliedTo == b.appliedTo

/-- Whether the rules ask for opposite things of a common kind of scope. -/
def conflictsWith (a b : Rule) : Bool :=
  a.kind.conflictsWith b.kind && a.appliedTo.meets b.appliedTo

/-- What the rule asks for, with its scopes and parameter filled in. -/
def description (r : Rule) : String :=
  let withScopes :=
    replaceFirst "%rs".toList r.applicable.text.toList r.kind.profile.description.toList
  String.ofList (replaceFirst "%rp".toList (r.parameter.getD "").toList withScopes)

def text (r : Rule) : String :=
  let head := s!"[{r.id}] {r.name} -> {r.appliedTo.text}"
  match r.parameter with
  | none => head
  | some parameter => s!"{head} ({parameter})"

/-- The parameter as a number, if it is one. -/
def number? (r : Rule) : Option Nat := r.parameter.bind fun p => wordOfDigits? (trim p.toList)

end Rule

/-! ## Rulebooks -/

structure Rulebook where
  rules : List Rule
  deriving DecidableEq, Repr, Inhabited

namespace Rulebook

instance : EmptyCollection Rulebook := ⟨⟨[]⟩⟩

/-- Takes a rule in, under the next number, unless it conflicts with one already there. -/
def push? (book : Rulebook) (r : Rule) : Option Rulebook :=
  if book.rules.any r.conflictsWith then none
  else some ⟨book.rules ++ [{ r with id := book.rules.length + 1 }]⟩

/-- Takes a rule in if it can be. -/
def push (book : Rulebook) (r : Rule) : Rulebook := (book.push? r).getD book

/-- The rulebook of those rules that can be taken in one after the other. -/
def ofRules (rules : List Rule) : Rulebook := rules.foldl push ∅

/-- The first rule of that number. -/
def get? (book : Rulebook) (id : Nat) : Option Rule := book.rules.find? (·.id == id)

/-- The rules of `rest` that duplicate neither one of `kept` nor an earlier one of their own, behind
those of `kept`. -/
def deduplicated (kept : List Rule) : List Rule → List Rule
  | [] => kept
  | r :: rest =>
    if kept.any r.duplicates then deduplicated kept rest else deduplicated (kept ++ [r]) rest

/-- Takes out the rules that duplicate an earlier one. -/
def deduplicate (book : Rulebook) : Rulebook := ⟨deduplicated [] book.rules⟩

end Rulebook

end ScopeLint
