import ScopeLint.Kind
import ScopeLint.Extent

/-!
# Regions

A region is a scope found in the text of a unit, before regions are nested in one another. This
module has what the searches for the kinds of regions share.
-/

namespace ScopeLint

structure Region where
  kind : Kind
  name : String
  span : Span
  deriving DecidableEq, Repr

namespace Region

/-- The same region, `lines` further down. -/
def down (r : Region) (lines : Nat) : Region := { r with span := r.span.down lines }

/-- The regions that `search` finds on the lines from number `index` on, one line after the other,
up to the first line that fails. -/
def sweep (search : Nat → Line → Except Unbalanced (Option Region)) :
    Nat → List Line → Except Unbalanced (List Region)
  | _, [] => .ok []
  | index, line :: rest =>
    match search index line with
    | .error e => .error e
    | .ok none => sweep search (index + 1) rest
    | .ok (some r) => (sweep search (index + 1) rest).map (r :: ·)

/-- A search that passes over the lines of macro definitions. -/
def outsideMacros (code : Code) (search : Nat → Line → Except Unbalanced (Option Region))
    (index : Nat) (line : Line) : Except Unbalanced (Option Region) :=
  if code.inMacro index then .ok none else search index line

end Region

end ScopeLint
