import ScopeLint.Number.Binary64
import ScopeLint.Outline.Nesting
import ScopeLint.UnitMap

/-!
# Batches of units

The units of a run are dealt to workers in chunks. Each unit is looked at on its own and its outline
put into one map, so that neither the chunks nor the order in which they are worked off matter.
-/

namespace ScopeLint

namespace Batch

/-- Chunks of `size` items, the last of them perhaps smaller; `fuel` bounds their number. -/
def chunksFrom {α : Type} (size : Nat) : Nat → List α → List (List α)
  | 0, _ => []
  | _, [] => []
  | fuel + 1, x :: rest => (x :: rest).take size :: chunksFrom size fuel ((x :: rest).drop size)

/-- The chunks that items are dealt to workers in. -/
def chunks {α : Type} (workers : Nat) (items : List α) : List (List α) :=
  chunksFrom (items.length / workers + 1) items.length items

/-- What has come in so far: the outlines, and how many units have none. -/
structure Gathered where
  outlines : UnitMap Outline
  failed : Nat
  deriving Repr

def Gathered.start : Gathered := ⟨∅, 0⟩

/-- Takes the result of one unit in. -/
def Gathered.add (g : Gathered) (s : Source) : Gathered :=
  match Outline.ofSource s with
  | .ok outline => { g with outlines := g.outlines.insert s.name outline }
  | .error _ => { g with failed := g.failed + 1 }

/-- The results of units that come in one after the other. -/
def gather (units : List Source) : Gathered := units.foldl Gathered.add .start

end Batch

/-- How many units a run has tried and how many of them have no outline. -/
structure Tally where
  attempted : Nat
  failed : Nat
  deriving DecidableEq, Repr

namespace Tally

/-- Hundredths of a percent, for a share rounded to a binary number first. -/
def hundredths (t : Tally) : Nat :=
  if t.attempted = 0 then 0
  else
    match Binary64.ofRatio? (t.failed * 100) t.attempted with
    | none => 0
    | some share =>
      Binary64.roundDiv (Binary64.scaleUp (share.mantissa * 100) share.exponent)
        (Binary64.scaleUp 1 (-share.exponent))

/-- The share of failed units in percent, with two places. -/
def percentage (t : Tally) : String :=
  let h := t.hundredths
  let places := h % 100
  s!"{h / 100}." ++ (if places < 10 then "0" else "") ++ s!"{places}"

end Tally

end ScopeLint
