import ScopeLint.Inert
import ScopeLint.Text.Blank

/-!
# Outlines

The nested scopes of one unit. Scopes are numbered; number 0 is the unit itself, the root, and every
other scope has a parent. Walks down and up the outline take as many steps as there are scopes,
which is enough as long as no scope is inside itself.
-/

namespace ScopeLint

/-- The number of a scope in its outline. -/
abbrev ScopeId := Nat

structure Scope where
  kind : Kind
  name : String
  span : Span
  parent : Option ScopeId
  children : List ScopeId
  deriving DecidableEq, Repr, Inhabited

/-- The name without qualifiers or the tilde of a destructor. -/
def Scope.unqualifiedName (s : Scope) : String := String.ofList (unqualified s.name.toList)

structure Outline where
  source : Source
  inert : Inert
  scopes : Array Scope
  deriving DecidableEq, Repr

namespace Outline

def root : ScopeId := 0

/-- The scope of that number; numbers beyond the last stand for an empty scope. -/
def get (o : Outline) (id : ScopeId) : Scope := o.scopes[id]?.getD default

/-! ## Downwards -/

/-- The scopes up to `depth` levels below `id`, each directly followed by those below it. -/
def below (o : Outline) : Nat → ScopeId → List ScopeId
  | 0, _ => []
  | depth + 1, id => (o.get id).children.flatMap fun child => child :: o.below depth child

/-- Every scope below `id`, each directly followed by those below it. -/
def descendants (o : Outline) (id : ScopeId) : List ScopeId := o.below o.scopes.size id

/-- All scopes, each directly followed by those below it. -/
def preorder (o : Outline) : List ScopeId := root :: o.descendants root

def descendantsOf (o : Outline) (id : ScopeId) (kinds : KindSet) : List ScopeId :=
  (o.descendants id).filter fun d => (o.get d).kind.isOf kinds

def childrenOf (o : Outline) (id : ScopeId) (kinds : KindSet) : List ScopeId :=
  (o.get id).children.filter fun c => (o.get c).kind.isOf kinds

/-! ## Upwards -/

/-- Up to `height` scopes around `id`, the innermost first. -/
def above (o : Outline) : Nat → ScopeId → List ScopeId
  | 0, _ => []
  | height + 1, id =>
    match (o.get id).parent with
    | none => []
    | some parent => parent :: o.above height parent

/-- The scopes around `id`, the innermost first. -/
def ancestors (o : Outline) (id : ScopeId) : List ScopeId := o.above o.scopes.size id

def depth (o : Outline) (id : ScopeId) : Nat := (o.ancestors id).length

/-! ## Text -/

/-- The lines of a scope, cut off at its ends. -/
def scopeLines (o : Outline) (id : ScopeId) : List Line := o.source.linesOf (o.get id).span

def scopeText (o : Outline) (id : ScopeId) : List Char := o.source.textOf (o.get id).span

/-- One line for each scope with its kind and name, indented by its depth. -/
def dump (o : Outline) : String :=
  String.join (o.preorder.map fun id =>
    String.join (List.replicate (o.depth id) "  ") ++
      s!"{(o.get id).kind.name} : {(o.get id).name}\n")

end Outline

end ScopeLint
