import ScopeLint.Proofs.Outline.OfSorted
import ScopeLint.Proofs.Region.Bounds
import ScopeLint.Proofs.Region.Refused
import ScopeLint.Proofs.Sort

/-!
# Outlines nest as their spans do

Every outline of a unit is a tree whose parents contain their children, in the order of the text,
and whose scopes have settled kinds.
-/

namespace ScopeLint

namespace Outline

/-- The scopes are a tree below the unit, and their spans, kinds and order fit it. -/
structure WellNested (s : Source) (o : Outline) : Prop where
  parent_root : (o.get root).parent = none
  root_notMem_children : ∀ id < o.scopes.size, root ∉ (o.get id).children
  children_lt : ∀ id < o.scopes.size, ∀ child ∈ (o.get id).children, child < o.scopes.size
  /-- Every other scope has a parent, and stands once among its children and nowhere else. -/
  exists_parent : ∀ id < o.scopes.size, id ≠ root → ∃ parent < o.scopes.size,
    (o.get id).parent = some parent ∧ ∀ other < o.scopes.size,
      (o.get other).children.count id = if other = parent then 1 else 0
  nodup_descendants : (o.descendants root).Nodup
  mem_descendants : ∀ id, id ∈ o.descendants root ↔ id ≠ root ∧ id < o.scopes.size
  size_eq : o.scopes.size = (o.descendants root).length + 1
  climb_root : ∀ id < o.scopes.size, ∃ steps, o.climb steps id = some root
  ancestors_root : ∀ id < o.scopes.size, id ≠ root → (o.ancestors id).getLast? = some root
  span_root : (o.get root).span = ⟨⟨0, 0⟩, s.lastPosition⟩
  start_le_stop : ∀ id < o.scopes.size, (o.get id).span.start ≤ (o.get id).span.stop
  span_within : ∀ id parent, (o.get id).parent = some parent →
    (o.get id).span.Within (o.get parent).span
  kind_settled : ∀ id < o.scopes.size,
    (o.get id).kind ≠ .anyFunction ∧ (o.get id).kind ≠ .anyVariable
  parent_define : ∀ id < o.scopes.size, (o.get id).kind = .globalDefine →
    (o.get id).parent = some root
  children_sorted : ∀ id < o.scopes.size, (o.get id).children.Pairwise fun a b =>
    (o.get a).span.start ≤ (o.get b).span.start

variable {s : Source} {inert : Inert} {regions : List Region}

/-! ## Sorted regions -/

theorem eq_root_or_exists_place {id : ScopeId}
    (hid : id < (ofSorted s inert regions).scopes.size) :
    id = root ∨ ∃ place r, id = place + 1 ∧ regions[place]? = some r := by
  rw [size_ofSorted] at hid
  exact or_iff_not_imp_left.mpr (exists_place (Nat.le_of_lt_succ hid))

theorem kind_settled_ofSorted {id : ScopeId}
    (hid : id < (ofSorted s inert regions).scopes.size) :
    ((ofSorted s inert regions).get id).kind ≠ .anyFunction ∧
      ((ofSorted s inert regions).get id).kind ≠ .anyVariable := by
  rcases eq_root_or_exists_place hid with rfl | ⟨place, r, rfl, hr⟩
  · rw [get_ofSorted_root]
    exact ⟨nofun, nofun⟩
  · rw [get_ofSorted_succ hr]
    exact Region.settledKind_ne_any _ _ _

theorem span_within_ofSorted (hfits : ∀ r ∈ regions, r.span.FitsIn s) {id parent : ScopeId}
    (h : ((ofSorted s inert regions).get id).parent = some parent) :
    ((ofSorted s inert regions).get id).span.Within
      ((ofSorted s inert regions).get parent).span := by
  obtain ⟨place, r, rfl, hr, rfl⟩ := exists_region_of_parent h
  rw [get_ofSorted_succ hr]
  rcases parentIn_eq regions r with hroot | ⟨above, c, hplace, hc, hspan, -⟩
  · rw [hroot, get_ofSorted_root]
    exact ⟨Position.origin_le _, (hfits r (List.mem_of_getElem? hr)).2⟩
  · rw [hplace, get_ofSorted_succ hc]
    exact hspan.2

theorem parent_define_scopeIn {place : Nat} {r : Region}
    (h : (scopeIn regions r place).kind = .globalDefine) :
    (scopeIn regions r place).parent = some root := by
  have hkind := Region.eq_globalDefine_of_settledKind h
  rcases parentIn_eq regions r with hroot | ⟨-, -, -, -, -, hne⟩
  · rw [scopeIn, hroot]
  · exact absurd hkind hne

theorem children_sorted_ofSorted
    (hsorted : regions.Pairwise fun a b => a.span.start ≤ b.span.start) (id : ScopeId) :
    ((ofSorted s inert regions).get id).children.Pairwise fun a b =>
      ((ofSorted s inert regions).get a).span.start ≤
        ((ofSorted s inert regions).get b).span.start := by
  refine (pairwise_children_ofSorted id).imp_of_mem ?_
  intro a b ha hb hab
  obtain ⟨i, r, rfl, hr, -⟩ := exists_region_of_parent (mem_children_ofSorted.mp ha).2
  obtain ⟨j, r', rfl, hr', -⟩ := exists_region_of_parent (mem_children_ofSorted.mp hb).2
  rw [get_ofSorted_succ hr, get_ofSorted_succ hr']
  obtain ⟨hi, rfl⟩ := List.getElem?_eq_some_iff.mp hr
  obtain ⟨hj, rfl⟩ := List.getElem?_eq_some_iff.mp hr'
  exact List.pairwise_iff_getElem.mp hsorted i j hi hj (Nat.lt_of_succ_lt_succ hab)

theorem wellNested_ofSorted
    (hsorted : regions.Pairwise fun a b => a.span.start ≤ b.span.start)
    (hfits : ∀ r ∈ regions, r.span.FitsIn s) : (ofSorted s inert regions).WellNested s := by
  have htree := isTree_ofSorted s inert regions
  exact {
    parent_root := htree.parent_root
    root_notMem_children := by
      intro id _ hmem
      have hparent := ((htree.mem_children_iff id root).mp hmem).2
      rw [htree.parent_root] at hparent
      simp at hparent
    children_lt := fun id _ child hchild => ((htree.mem_children_iff id child).mp hchild).1
    exists_parent := by
      intro id hid hroot
      obtain ⟨parent, hparent⟩ := htree.exists_parent id hid hroot
      exact ⟨parent, htree.parent_lt hparent, hparent,
        fun other _ => htree.count_children hparent hid other⟩
    nodup_descendants := htree.nodup_descendants root
    mem_descendants := fun _ => htree.mem_descendants_root_iff
    size_eq := htree.size_eq
    climb_root := fun _ hid => htree.exists_climb_root hid
    ancestors_root := fun _ hid hroot => htree.getLast?_ancestors hid hroot
    span_root := by rw [get_ofSorted_root]
    start_le_stop := by
      intro id hid
      rcases eq_root_or_exists_place hid with rfl | ⟨place, r, rfl, hr⟩
      · rw [get_ofSorted_root]
        exact Position.origin_le _
      · rw [get_ofSorted_succ hr]
        exact (hfits r (List.mem_of_getElem? hr)).1
    span_within := fun _ _ => span_within_ofSorted hfits
    kind_settled := fun _ => kind_settled_ofSorted
    parent_define := by
      intro id hid hkind
      rcases eq_root_or_exists_place hid with rfl | ⟨place, r, rfl, hr⟩
      · rw [get_ofSorted_root] at hkind
        simp at hkind
      · rw [get_ofSorted_succ hr] at hkind ⊢
        exact parent_define_scopeIn hkind
    children_sorted := fun id _ => children_sorted_ofSorted hsorted id }

end Outline

/-! ## Regions of a unit -/

namespace Region

theorem mem_of_mem_sortByStart {regions : List Region} {r : Region}
    (h : r ∈ sortByStart regions) : r ∈ regions :=
  (perm_sortBy _ regions).mem_iff.mp h

theorem pairwise_sortByStart (regions : List Region) :
    (sortByStart regions).Pairwise fun a b => a.span.start ≤ b.span.start := by
  have hsorted := pairwise_sortBy (fun a b : Region => decide (a.span.start ≤ b.span.start))
    ?_ ?_ regions
  · exact hsorted.imp of_decide_eq_true
  · intro a b c hab hbc
    exact decide_eq_true (Position.le_trans (of_decide_eq_true hab) (of_decide_eq_true hbc))
  · intro a b hab
    exact decide_eq_true (Position.le_of_lt (Position.not_le.mp (of_decide_eq_false hab)))

end Region

/-- Every outline of a unit is well nested. -/
theorem Outline.wellNested_ofSource {s : Source} {o : Outline} (h : Outline.ofSource s = .ok o) :
    o.WellNested s := by
  obtain ⟨regions, hregions, rfl⟩ := Region.exists_of_map_eq_ok h
  refine wellNested_ofSorted (Region.pairwise_sortByStart _) ?_
  intro r hr
  have hadmitted := Region.mem_of_mem_sortByStart hr
  have hfound := Region.mem_of_mem_admitted hadmitted
  exact Region.fitsIn_of_mem_ofCode hregions r hfound

def nestedClass : Source :=
  ⟨"unit.cpp", ["#define LIMIT 8".toList, "class A \x7b".toList, "  void f() \x7b".toList,
    "    int k; // local".toList, "  \x7d".toList, "\x7d;".toList]⟩

theorem Outline.wellNested_nestedClass :
    ∃ o, Outline.ofSource nestedClass = .ok o ∧ o.scopes.size = 6 ∧ o.WellNested nestedClass := by
  have hsize : (Outline.ofSource nestedClass).toOption.map (·.scopes.size) = some 6 := by
    decide +kernel
  cases h : Outline.ofSource nestedClass with
  | error e =>
    rw [h] at hsize
    cases hsize
  | ok o =>
    rw [h] at hsize
    exact ⟨o, rfl, Option.some.inj hsize, wellNested_ofSource h⟩

end ScopeLint
