import ScopeLint.Span

/-!
# Findings

What a check has to say about a place in a unit, and the findings of one unit grouped by the check
that made them.
-/

namespace ScopeLint

inductive Severity where
  | warning
  | error
  | unknown
  deriving DecidableEq, Repr, Inhabited

/-- A finding; its line and column are counted from 0. -/
structure Finding where
  severity : Severity
  content : String
  line : Nat
  column : Option Nat
  deriving DecidableEq, Repr

namespace Finding

def warningAt (line col : Nat) (content : String) : Finding := ⟨.warning, content, line, some col⟩

/-- The finding as it is shown, with lines and columns counted from 1. -/
def text (f : Finding) : String :=
  match f.column with
  | none => s!"L{succ64 f.line}: {f.content}"
  | some column => s!"L{succ64 f.line}, Character: {succ64 column}: {f.content}"

end Finding

/-- Findings by the number of their check, in ascending order of the numbers. -/
structure Findings where
  groups : List (Nat × List Finding)
  deriving DecidableEq, Repr, Inhabited

namespace Findings

instance : EmptyCollection Findings := ⟨⟨[]⟩⟩

/-- Adds a finding behind the others of its number. -/
def pushInto (id : Nat) (f : Finding) : List (Nat × List Finding) → List (Nat × List Finding)
  | [] => [(id, [f])]
  | (n, fs) :: rest =>
    if id < n then (id, [f]) :: (n, fs) :: rest
    else if id = n then (n, fs ++ [f]) :: rest
    else (n, fs) :: pushInto id f rest

def push (all : Findings) (id : Nat) (f : Finding) : Findings := ⟨pushInto id f all.groups⟩

def extend (all : Findings) (id : Nat) (fs : List Finding) : Findings :=
  fs.foldl (fun all f => all.push id f) all

/-- The findings of a number, oldest first. -/
def get (all : Findings) (id : Nat) : List Finding := (all.groups.lookup id).getD []

def size (all : Findings) : Nat := all.groups.foldl (fun n group => n + group.2.length) 0

def isEmpty (all : Findings) : Bool := all.size == 0

end Findings

end ScopeLint
