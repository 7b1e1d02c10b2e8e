import ScopeLint.Json.Value
import ScopeLint.Rule

/-!
# Rule files

A rule file is a JSON record with a list of `rules`. Each rule has the name of its kind under
`rule`, and may have the name of its scopes under `appliedTo` and a `parameter`. A list with the
values in this order may stand in place of a record; other members of records are passed over.
-/

namespace ScopeLint.RuleFile

/-- How many lists and records may be inside one another in a rule file. -/
def nestingLimit : Nat := 127

/-- How many of them are around the parameter of a rule: the file, the list and the rule. -/
def parameterDepth : Nat := 3

/-! ## Members -/

/-- The values of the members `names` of a record, in that order. None of them may be there twice,
and every key has to be a text. -/
def pick? (names : List String) (members : List (List Char × JsonText)) :
    Option (List (Option JsonText)) := do
  let members ← members.mapM fun (key, value) =>
    (JsonText.decodeString key).map fun key => (key, value)
  names.mapM fun name =>
    match members.filter (·.1 == name) with
    | [] => some none
    | [member] => some (some member.2)
    | _ => none

/-- The first values of a list with no more than `count` of them. -/
def positional? (count : Nat) (items : List JsonText) : Option (List (Option JsonText)) :=
  if count < items.length then none
  else some (items.map some ++ List.replicate (count - items.length) none)

/-- The values of the given members, from a record or from a list. -/
def fields? (names : List String) : JsonText → Option (List (Option JsonText))
  | .record members => pick? names members
  | .list items => positional? names.length items
  | _ => none

/-! ## Rules -/

def string? : JsonText → Option String
  | .string raw => JsonText.decodeString raw
  | _ => none

/-- The text of a parameter. A string stands for itself and any other value for its compact text; no
value is no parameter. -/
def parameter? : Option JsonText → Option (Option String)
  | none => some none
  | some .null => some none
  | some text =>
    (text.value? (nestingLimit - parameterDepth)).map fun
      | .string s => some s
      | value => some value.text

/-- A rule of the file. Its number is not settled yet, and a name that is not known makes it an
unknown rule. -/
def rule? (text : JsonText) : Option Rule := do
  match ← fields? ["rule", "appliedTo", "parameter"] text with
  | [some name, appliedTo, parameter] =>
    let name ← string? name
    let appliedTo ← match appliedTo with
      | none => some "All"
      | some appliedTo => string? appliedTo
    let parameter ← parameter? parameter
    return {
      id := 0
      kind := (RuleKind.ofName? name).getD .unknown
      name := name
      appliedTo := KindSet.ofName appliedTo
      parameter := parameter }
  | _ => none

/-- The rules of a file in order, if it is one. -/
def rules? (text : List Char) : Option (List Rule) := do
  match ← fields? ["rules"] (← JsonText.read? text) with
  | [some (.list items)] => items.mapM rule?
  | _ => none

/-- The rulebook of a file, if it is one; rules that conflict with an earlier one are left out. -/
def rulebook? (text : List Char) : Option Rulebook := (rules? text).map Rulebook.ofRules

end ScopeLint.RuleFile
