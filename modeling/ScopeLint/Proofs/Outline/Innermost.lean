import ScopeLint.Proofs.Outline.WellNested

/-!
# Parents are smallest containers

Whatever regions are given, those that become scopes stand by start, and as found where they start
alike. Each hangs under a smallest region that strictly contains it, the first with that span, also
where the regions around it cross one another.
-/

namespace ScopeLint

/-! ## The order of scopes -/

namespace Region

/-- The regions by start; those with one start are in the order in which they were found. -/
structure InStartOrder (found sorted : List Region) : Prop where
  perm : sorted.Perm found
  starts : sorted.Pairwise fun a b => a.span.start ≤ b.span.start
  stable : ∀ start : Position, sorted.filter (fun r => decide (r.span.start = start)) =
    found.filter fun r => decide (r.span.start = start)

theorem filter_sortByStart (p : Region → Bool) (regions : List Region) :
    (sortByStart regions).filter p = sortByStart (regions.filter p) := by
  apply filter_sortBy
  · intro a b c hab hbc
    exact decide_eq_true (Position.le_trans (of_decide_eq_true hab) (of_decide_eq_true hbc))
  · intro a b hab
    exact decide_eq_true (Position.le_of_lt (Position.not_le.mp (of_decide_eq_false hab)))

theorem sortByStart_eq_self {regions : List Region}
    (h : regions.Pairwise fun a b => a.span.start ≤ b.span.start) :
    sortByStart regions = regions :=
  sortBy_eq_self (h.imp decide_eq_true)

theorem inStartOrder_sortByStart (regions : List Region) :
    InStartOrder regions (sortByStart regions) where
  perm := perm_sortBy _ regions
  starts := pairwise_sortByStart regions
  stable := by
    intro start
    rw [filter_sortByStart]
    apply sortByStart_eq_self
    apply List.pairwise_of_forall_mem_list
    intro a ha b hb
    simp only [List.mem_filter, decide_eq_true_eq] at ha hb
    rw [ha.2, hb.2]
    exact Position.le_refl start

/-! ## Containers among sorted regions -/

theorem container?_eq_none_iff {regions : List Region} {r : Region} (hkind : r.kind ≠ .globalDefine) :
    container? regions.zipIdx r = none ↔ ∀ d ∈ regions, ¬r.span.StrictlyWithin d.span := by
  have hchosen := chosen_foldl r.span regions.zipIdx
  rw [container?, if_neg hkind]
  constructor
  · intro hnone d hd
    rw [hnone] at hchosen
    obtain ⟨place, hplace⟩ := List.mem_iff_getElem?.mp hd
    exact hchosen (d, place) (List.mem_zipIdx_iff_getElem?.mpr hplace)
  · intro hnone
    cases hc : regions.zipIdx.foldl (betterContainer r.span) none with
    | none => rfl
    | some c =>
      rw [hc] at hchosen
      have hmem := List.mem_of_find?_eq_some hchosen.first
      have hplace := List.mem_zipIdx_iff_getElem?.mp hmem
      exact absurd hchosen.contains (hnone c.1 (List.mem_of_getElem? hplace))

theorem container?_smallest {regions : List Region} {r p : Region} {above : Nat}
    (h : container? regions.zipIdx r = some (p, above)) :
    (∀ d ∈ regions, r.span.StrictlyWithin d.span → ¬d.span.StrictlyWithin p.span) ∧
      ∀ i < above, ∀ q, regions[i]? = some q → q.span ≠ p.span := by
  unfold container? at h
  split at h
  · simp at h
  · have hchosen := chosen_foldl r.span regions.zipIdx
    rw [h] at hchosen
    constructor
    · intro d hd
      obtain ⟨place, hplace⟩ := List.mem_iff_getElem?.mp hd
      exact hchosen.smallest (d, place) (List.mem_zipIdx_iff_getElem?.mpr hplace)
    · intro i hi q hq heq
      obtain ⟨-, place, hplace, hp, hbefore⟩ := List.find?_eq_some_iff_getElem.mp hchosen.first
      rw [List.getElem_zipIdx, Prod.mk.injEq, Nat.zero_add] at hp
      obtain ⟨hlength, rfl⟩ := List.getElem?_eq_some_iff.mp hq
      have hne := hbefore i (hp.2 ▸ hi)
      simp [heq] at hne

end Region

/-! ## Parents -/

namespace Outline

def HangsUnder (o : Outline) (id parent : ScopeId) : Prop :=
  (o.get id).parent = some parent ∧ id ∈ (o.get parent).children

variable {s : Source} {inert : Inert} {regions : List Region}

theorem hangsUnder_ofSorted {place : Nat} {r : Region} (h : regions[place]? = some r)
    (parent : ScopeId) :
    (ofSorted s inert regions).HangsUnder (place + 1) parent ↔ parent = parentIn regions r := by
  have hlt : place + 1 < (ofSorted s inert regions).scopes.size := by
    rw [size_ofSorted]
    exact Nat.succ_lt_succ (List.getElem?_eq_some_iff.mp h).1
  unfold HangsUnder
  rw [mem_children_ofSorted, get_ofSorted_succ h]
  simp only [scopeIn, hlt, true_and, and_self, Option.some.injEq]
  exact eq_comm

/-- Where a region that defines no macro hangs: under the root if nothing contains it strictly, and
otherwise under a smallest of those that do, the first in order with the span of that one. -/
structure HangsInnermost (o : Outline) (found sorted : List Region) (place : Nat) (r : Region) :
    Prop where
  span : (o.get (place + 1)).span = r.span
  under_root : o.HangsUnder (place + 1) root ↔ ∀ d ∈ found, ¬r.span.StrictlyWithin d.span
  under_smallest : (∃ d ∈ found, r.span.StrictlyWithin d.span) →
    ∃ above p, sorted[above]? = some p ∧ o.HangsUnder (place + 1) (above + 1) ∧
      r.span.StrictlyWithin p.span ∧
      (∀ d ∈ found, r.span.StrictlyWithin d.span → ¬d.span.StrictlyWithin p.span) ∧
      ∀ i < above, ∀ q, sorted[i]? = some q → q.span ≠ p.span

theorem parentIn_eq_root_iff {r : Region} (hkind : r.kind ≠ .globalDefine) :
    parentIn regions r = root ↔ ∀ d ∈ regions, ¬r.span.StrictlyWithin d.span := by
  rw [← Region.container?_eq_none_iff hkind, parentIn]
  cases r.container? regions.zipIdx with
  | none => simp [parentOf]
  | some c => simp [parentOf, root]

theorem exists_parentIn_eq {r d : Region} (hkind : r.kind ≠ .globalDefine) (hd : d ∈ regions)
    (hspan : r.span.StrictlyWithin d.span) :
    ∃ above p, regions[above]? = some p ∧ parentIn regions r = above + 1 ∧
      r.span.StrictlyWithin p.span ∧
      (∀ d ∈ regions, r.span.StrictlyWithin d.span → ¬d.span.StrictlyWithin p.span) ∧
      ∀ i < above, ∀ q, regions[i]? = some q → q.span ≠ p.span := by
  cases hc : r.container? regions.zipIdx with
  | none => exact absurd hspan ((Region.container?_eq_none_iff hkind).mp hc d hd)
  | some found =>
    obtain ⟨p, above⟩ := found
    obtain ⟨hplace, hcontains, -⟩ := Region.container?_eq_some hc
    obtain ⟨hsmallest, hfirst⟩ := Region.container?_smallest hc
    exact ⟨above, p, hplace, by rw [parentIn, hc]; rfl, hcontains, hsmallest, hfirst⟩

/-- Among any regions, one that becomes a scope and defines no macro hangs under a smallest scope
around it, or under the root when there is none. -/
theorem hangsInnermost_ofRegions {found : List Region} {place : Nat} {r : Region}
    (hplace : (Region.sortByStart (Region.admitted s found))[place]? = some r)
    (hkind : r.kind ≠ .globalDefine) :
    Region.InStartOrder (Region.admitted s found) (Region.sortByStart (Region.admitted s found)) ∧
      (ofRegions s inert found).HangsInnermost (Region.admitted s found)
        (Region.sortByStart (Region.admitted s found)) place r := by
  have horder := Region.inStartOrder_sortByStart (Region.admitted s found)
  have hmem := fun d : Region => horder.perm.mem_iff (a := d)
  refine ⟨horder, ?_⟩
  unfold ofRegions
  constructor
  case span => rw [get_ofSorted_succ hplace, scopeIn]
  case under_root =>
    rw [hangsUnder_ofSorted hplace, eq_comm, parentIn_eq_root_iff hkind]
    simp only [hmem]
  case under_smallest =>
    rintro ⟨d, hd, hspan⟩
    obtain ⟨above, p, hp, hparent, hcontains, hsmallest, hfirst⟩ :=
      exists_parentIn_eq hkind ((hmem d).mpr hd) hspan
    refine ⟨above, p, hp, (hangsUnder_ofSorted hplace _).mpr hparent.symm, hcontains, ?_, hfirst⟩
    simpa only [hmem] using hsmallest

end Outline

def crossingRegions : List Region :=
  [⟨.classBlock, "Crossing", ⟨⟨5, 0⟩, ⟨15, 0⟩⟩⟩, ⟨.anyFunction, "inner", ⟨⟨6, 0⟩, ⟨8, 0⟩⟩⟩,
    ⟨.namespaceBlock, "first", ⟨⟨0, 0⟩, ⟨10, 0⟩⟩⟩, ⟨.classBlock, "Second", ⟨⟨0, 0⟩, ⟨10, 0⟩⟩⟩]

/-- The function hangs under the namespace, the first of three around it that is a smallest one. -/
theorem Outline.hangsInnermost_crossingRegions :
    ∃ r, (Region.sortByStart (Region.admitted ⟨"unit.cpp", []⟩ crossingRegions))[3]? = some r ∧
      r.kind ≠ .globalDefine ∧
      (∃ d ∈ Region.admitted ⟨"unit.cpp", []⟩ crossingRegions, r.span.StrictlyWithin d.span) ∧
      (ofRegions ⟨"unit.cpp", []⟩ ⟨#[], #[]⟩ crossingRegions).HangsUnder 4 1 ∧
      Region.InStartOrder (Region.admitted ⟨"unit.cpp", []⟩ crossingRegions)
        (Region.sortByStart (Region.admitted ⟨"unit.cpp", []⟩ crossingRegions)) ∧
      (ofRegions ⟨"unit.cpp", []⟩ ⟨#[], #[]⟩ crossingRegions).HangsInnermost
        (Region.admitted ⟨"unit.cpp", []⟩ crossingRegions)
        (Region.sortByStart (Region.admitted ⟨"unit.cpp", []⟩ crossingRegions)) 3 r := by
  refine ⟨⟨.anyFunction, "inner", ⟨⟨6, 0⟩, ⟨8, 0⟩⟩⟩, by decide, by decide, by decide, ?_, ?_⟩
  · unfold HangsUnder
    decide
  · exact hangsInnermost_ofRegions (by decide) (by decide)

end ScopeLint
