/-!
# Sorting and searching

A stable sort by insertion, and binary search. The items of a sorted array that come before a point
form its front: the search looks at a logarithmic number of items, and is meant for predicates that
hold on a front and nowhere after.
-/

namespace ScopeLint

/-! ## Binary search -/

/-- One halving of the window from `low` to `high` for each unit of `fuel`. -/
def frontCountFrom {α : Type} (p : α → Bool) (items : Array α) : Nat → Nat → Nat → Nat
  | 0, low, _ => low
  | fuel + 1, low, high =>
    if low < high then
      let middle := (low + high) / 2
      match items[middle]? with
      | none => low
      | some item =>
        if p item then frontCountFrom p items fuel (middle + 1) high
        else frontCountFrom p items fuel low middle
    else low

/-- How many items satisfy `p`, when those that do are in front of those that do not. -/
def frontCount {α : Type} (p : α → Bool) (items : Array α) : Nat :=
  frontCountFrom p items items.size 0 items.size

/-- The last item of the front that satisfies `p`. -/
def lastInFront? {α : Type} (p : α → Bool) (items : Array α) : Option α :=
  match frontCount p items with
  | 0 => none
  | n + 1 => items[n]?

/-! ## Sort by insertion -/

/-- Puts `x` in front of the first item that it may precede. -/
def insertBy {α : Type} (le : α → α → Bool) (x : α) : List α → List α
  | [] => [x]
  | y :: rest => if le x y then x :: y :: rest else y :: insertBy le x rest

/-- The items in the order of `le`; those that precede each other keep their order. -/
def sortBy {α : Type} (le : α → α → Bool) : List α → List α
  | [] => []
  | x :: rest => insertBy le x (sortBy le rest)

/-! ## Laws -/

theorem perm_insertBy {α : Type} (le : α → α → Bool) (x : α) (items : List α) :
    (insertBy le x items).Perm (x :: items) := by
  induction items with
  | nil => exact .refl _
  | cons y rest ih =>
    unfold insertBy
    split
    · exact .refl _
    · exact (ih.cons y).trans (.swap x y rest)

theorem perm_sortBy {α : Type} (le : α → α → Bool) (items : List α) :
    (sortBy le items).Perm items := by
  induction items with
  | nil => exact .refl _
  | cons x rest ih => exact (perm_insertBy le x _).trans (ih.cons x)

end ScopeLint
