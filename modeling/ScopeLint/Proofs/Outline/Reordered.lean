import ScopeLint.Proofs.Outline.Innermost

/-!
# The order of discovery

Regions that start at different places may be found in any order: the outline is the same. Admission
asks only which regions there are, and sorting leaves no more of the order than that of regions that
start alike.
-/

namespace ScopeLint

namespace Region

/-! ## Orders of discovery -/

/-- The same regions in another order, but in the same one where they start alike. -/
structure Reordered (found others : List Region) : Prop where
  perm : found.Perm others
  stable : ∀ start : Position, found.filter (fun r => decide (r.span.start = start)) =
    others.filter fun r => decide (r.span.start = start)

theorem reordered_swap {x y : Region} (h : x.span.start ≠ y.span.start)
    (front back : List Region) :
    Reordered (front ++ x :: y :: back) (front ++ y :: x :: back) where
  perm := (List.Perm.swap y x back).append_left front
  stable := by
    intro start
    rw [List.filter_append, List.filter_append]
    by_cases hx : x.span.start = start
    · have hy : y.span.start ≠ start := fun hy => h (hx.trans hy.symm)
      simp [hx, hy]
    · simp [List.filter_cons, hx]

/-! ## Admission -/

variable {s : Source} {found others : List Region}

theorem mem_admitted_congr (h : ∀ r, r ∈ found ↔ r ∈ others) (r : Region) :
    r ∈ admitted s found ↔ r ∈ admitted s others := by
  simp only [mem_admitted, mem_outer, mem_visible, mem_named, h]

theorem filter_admitted_congr (hmem : ∀ r, r ∈ found ↔ r ∈ others) {p : Region → Bool}
    (h : found.filter p = others.filter p) :
    (admitted s found).filter p = (admitted s others).filter p := by
  have hrefused (r : Region) :
      Refused s (admitted s found) r ↔ Refused s (admitted s others) r :=
    ⟨Refused.mono fun k => (mem_admitted_congr hmem k).mp,
      Refused.mono fun k => (mem_admitted_congr hmem k).mpr⟩
  rw [admitted_eq_filter s found, admitted_eq_filter s others, List.filter_comm, h,
    List.filter_comm]
  simp only [hrefused]

/-! ## Sorting -/

theorem sortByStart_congr (h : ∀ start : Position,
      found.filter (fun r => decide (r.span.start = start)) =
        others.filter fun r => decide (r.span.start = start)) :
    sortByStart found = sortByStart others := by
  apply eq_of_pairwise_of_filter_eq (fun _ _ => Position.le_antisymm) (·.span.start)
    (pairwise_sortByStart found) (pairwise_sortByStart others)
  intro start
  rw [filter_sortByStart, filter_sortByStart, h start]

end Region

namespace Outline

/-- The outline does not depend on the order in which regions are found. -/
theorem ofRegions_eq_of_reordered {found others : List Region}
    (h : Region.Reordered found others) (s : Source) (inert : Inert) :
    ofRegions s inert found = ofRegions s inert others := by
  have hsorted : Region.sortByStart (Region.admitted s found) =
      Region.sortByStart (Region.admitted s others) := by
    apply Region.sortByStart_congr
    intro start
    exact Region.filter_admitted_congr (fun _ => h.perm.mem_iff) (h.stable start)
  rw [ofRegions, ofRegions, hsorted]

/-- The function is found in front of the class that it is in, and not behind it. -/
def crossingReordered : List Region :=
  [⟨.anyFunction, "inner", ⟨⟨6, 0⟩, ⟨8, 0⟩⟩⟩, ⟨.classBlock, "Crossing", ⟨⟨5, 0⟩, ⟨15, 0⟩⟩⟩,
    ⟨.namespaceBlock, "first", ⟨⟨0, 0⟩, ⟨10, 0⟩⟩⟩, ⟨.classBlock, "Second", ⟨⟨0, 0⟩, ⟨10, 0⟩⟩⟩]

theorem ofRegions_eq_crossingReordered :
    crossingRegions ≠ crossingReordered ∧ Region.Reordered crossingRegions crossingReordered ∧
      ofRegions ⟨"unit.cpp", []⟩ ⟨#[], #[]⟩ crossingRegions =
        ofRegions ⟨"unit.cpp", []⟩ ⟨#[], #[]⟩ crossingReordered := by
  have hreordered : Region.Reordered crossingRegions crossingReordered :=
    Region.reordered_swap (by decide) [] _
  exact ⟨by decide, hreordered, ofRegions_eq_of_reordered hreordered _ _⟩

end Outline

end ScopeLint
