import ScopeLint.Outline
import ScopeLint.Outline.Admission
import ScopeLint.Region.OfCode
import ScopeLint.Sort

/-!
# Nesting regions

A region hangs under the smallest region that strictly contains it. Where it hangs decides what kind
of function or variable it is.
-/

namespace ScopeLint.Region

/-! ## Order -/

/-- The regions by start; those with the same start keep their order. -/
def sortByStart (regions : List Region) : List Region :=
  sortBy (fun a b => decide (a.span.start ≤ b.span.start)) regions

/-! ## Containers -/

/-- The better container for `span` of the one chosen so far and the next region in order, which is
taken if it strictly contains `span` and is strictly within the one chosen so far. -/
def betterContainer (span : Span) (chosen : Option (Region × Nat)) (next : Region × Nat) :
    Option (Region × Nat) :=
  if span.StrictlyWithin next.1.span then
    match chosen with
    | none => some next
    | some c => if next.1.span.StrictlyWithin c.1.span then some next else some c
  else chosen

/-- The container of a region among all regions in order, each with its place among them.
Definitions of macros have none. -/
def container? (placed : List (Region × Nat)) (r : Region) : Option (Region × Nat) :=
  if r.kind = .globalDefine then none else placed.foldl (betterContainer r.span) none

/-! ## Kinds -/

/-- The kind of a scope, given the kind of the region that contains it. -/
def settledKind (kind : Kind) (name : String) (container : Kind) : Kind :=
  match kind with
  | .anyVariable =>
    match container with
    | .source | .namespaceBlock => .globalVariable
    | .conditional | .anyFunction => .functionVariable
    | _ => .classVariable
  | .anyFunction =>
    match container with
    | .classBlock => .classFunction
    | .anyFunction => if isQualified name.toList then .classFunction else .functionVariable
    | _ => if isQualified name.toList then .classFunction else .freeFunction
  | kind => kind

end ScopeLint.Region

namespace ScopeLint.Outline

/-! ## Outlines -/

/-- The number of the parent of a scope: that of its container, and the root without one. -/
def parentOf : Option (Region × Nat) → ScopeId
  | none => root
  | some (_, place) => place + 1

def containerKind : Option (Region × Nat) → Kind
  | none => .source
  | some (container, _) => container.kind

/-- The numbers of the scopes whose parent is `id`, given the parents and the places of their
children. -/
def childrenOfParent (parents : List (ScopeId × Nat)) (id : ScopeId) : List ScopeId :=
  parents.filterMap fun (parent, place) => if parent = id then some (place + 1) else none

/-- The outline of regions that are sorted by start: scope number `n + 1` is region `n`. -/
def ofSorted (s : Source) (inert : Inert) (regions : List Region) : Outline :=
  let placed := regions.zipIdx
  let containers := regions.map (Region.container? placed)
  let parents := (containers.map parentOf).zipIdx
  let scopeOf (entry : (Region × Option (Region × Nat)) × Nat) : Scope :=
    { kind := Region.settledKind entry.1.1.kind entry.1.1.name (containerKind entry.1.2)
      name := entry.1.1.name
      span := entry.1.1.span
      parent := some (parentOf entry.1.2)
      children := childrenOfParent parents (entry.2 + 1) }
  let unit : Scope :=
    { kind := .source
      name := s.name
      span := ⟨⟨0, 0⟩, s.lastPosition⟩
      parent := none
      children := childrenOfParent parents root }
  { source := s
    inert := inert
    scopes := (unit :: (regions.zip containers).zipIdx.map scopeOf).toArray }

/-- The outline of the regions that become scopes. -/
def ofRegions (s : Source) (inert : Inert) (regions : List Region) : Outline :=
  ofSorted s inert (Region.sortByStart (Region.admitted s regions))

/-- The outline of a unit, or why it has none. -/
def ofSource (s : Source) : Except Unbalanced Outline :=
  let code := Code.ofSource s
  (Region.ofCode code).map (ofRegions s code.inert)

end ScopeLint.Outline
