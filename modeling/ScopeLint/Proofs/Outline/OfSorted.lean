import ScopeLint.Proofs.Outline.Container
import ScopeLint.Proofs.Outline.Tree
import ScopeLint.Proofs.Sort

/-!
# The scopes of sorted regions

What each scope of an outline is, and that these scopes are a tree: the rank of a scope is the
number of regions around it.
-/

namespace ScopeLint.Outline

variable {s : Source} {inert : Inert} {regions : List Region}

/-! ## Children -/

theorem mem_childrenOfParent {parents : List ScopeId} {parent id : ScopeId} :
    id ∈ childrenOfParent parents.zipIdx parent ↔
      ∃ place, id = place + 1 ∧ parents[place]? = some parent := by
  unfold childrenOfParent
  rw [List.mem_filterMap]
  constructor
  · rintro ⟨⟨p, place⟩, hmem, h⟩
    simp only at h
    split at h
    · rename_i heq
      exact ⟨place, (Option.some.inj h).symm, by rw [List.mem_zipIdx_iff_getElem?.mp hmem, heq]⟩
    · simp at h
  · rintro ⟨place, rfl, hplace⟩
    exact ⟨(parent, place), List.mem_zipIdx_iff_getElem?.mpr hplace, if_pos rfl⟩

theorem pairwise_childrenOfParent (parents : List ScopeId) (parent : ScopeId) :
    (childrenOfParent parents.zipIdx parent).Pairwise (· < ·) := by
  refine (pairwise_zipIdx parents).filterMap _ ?_
  rintro ⟨p, i⟩ ⟨q, j⟩ hij x hx y hy
  simp only [Option.ite_none_right_eq_some, Option.some.injEq] at hx hy
  rw [← hx.2, ← hy.2]
  exact Nat.succ_lt_succ hij

/-! ## Scopes -/

def parentIn (regions : List Region) (r : Region) : ScopeId :=
  parentOf (r.container? regions.zipIdx)

def childrenIn (regions : List Region) (id : ScopeId) : List ScopeId :=
  childrenOfParent (regions.map (parentIn regions)).zipIdx id

def scopeIn (regions : List Region) (r : Region) (place : Nat) : Scope where
  kind := Region.settledKind r.kind r.name (containerKind (r.container? regions.zipIdx))
  name := r.name
  span := r.span
  parent := some (parentIn regions r)
  children := childrenIn regions (place + 1)

theorem size_ofSorted : (ofSorted s inert regions).scopes.size = regions.length + 1 := by
  simp [ofSorted]

theorem map_parentOf (regions : List Region) :
    (regions.map (Region.container? regions.zipIdx)).map parentOf =
      regions.map (parentIn regions) :=
  List.map_map

theorem get_ofSorted_root : (ofSorted s inert regions).get root =
    { kind := .source
      name := s.name
      span := ⟨⟨0, 0⟩, s.lastPosition⟩
      parent := none
      children := childrenIn regions root } := by
  simp only [ofSorted, childrenIn, map_parentOf]
  rfl

theorem get_ofSorted_succ {place : Nat} {r : Region} (h : regions[place]? = some r) :
    (ofSorted s inert regions).get (place + 1) = scopeIn regions r place := by
  have hzip : (regions.zip (regions.map (Region.container? regions.zipIdx)))[place]? =
      some (r, r.container? regions.zipIdx) := by
    rw [List.getElem?_zip_eq_some, List.getElem?_map, h]
    exact ⟨rfl, rfl⟩
  unfold ofSorted get
  simp only [List.getElem?_toArray, List.getElem?_cons_succ, List.getElem?_map,
    List.getElem?_zipIdx, hzip, Option.map_some, Nat.zero_add, Option.getD_some, map_parentOf]
  rfl

theorem get_ofSorted_of_le {id : ScopeId} (h : regions.length < id) :
    (ofSorted s inert regions).get id = default := by
  unfold get
  rw [Array.getElem?_eq_none, Option.getD_none]
  rw [size_ofSorted]
  exact h

theorem exists_place {id : ScopeId} (hid : id ≤ regions.length) (hroot : id ≠ root) :
    ∃ place r, id = place + 1 ∧ regions[place]? = some r := by
  obtain ⟨place, rfl⟩ := Nat.exists_eq_succ_of_ne_zero hroot
  have hplace : place < regions.length := hid
  exact ⟨place, regions[place], rfl, List.getElem?_eq_getElem hplace⟩

/-! ## Parents -/

theorem parentIn_eq (regions : List Region) (r : Region) :
    parentIn regions r = root ∨
      ∃ place c, parentIn regions r = place + 1 ∧ regions[place]? = some c ∧
        r.span.StrictlyWithin c.span ∧ r.kind ≠ .globalDefine := by
  cases hc : r.container? regions.zipIdx with
  | none => exact .inl (by rw [parentIn, hc]; rfl)
  | some found =>
    obtain ⟨c, place⟩ := found
    obtain ⟨hplace, hspan, hkind⟩ := Region.container?_eq_some hc
    exact .inr ⟨place, c, by rw [parentIn, hc]; rfl, hplace, hspan, hkind⟩

theorem parentIn_le (regions : List Region) (r : Region) :
    parentIn regions r ≤ regions.length := by
  rcases parentIn_eq regions r with hroot | ⟨place, c, hplace, hc, -⟩
  · rw [hroot]
    exact Nat.zero_le _
  · rw [hplace]
    exact (List.getElem?_eq_some_iff.mp hc).1

theorem exists_region_of_parent {id parent : ScopeId}
    (h : ((ofSorted s inert regions).get id).parent = some parent) :
    ∃ place r, id = place + 1 ∧ regions[place]? = some r ∧ parent = parentIn regions r := by
  by_cases hid : id ≤ regions.length
  · by_cases hroot : id = root
    · rw [hroot, get_ofSorted_root] at h
      simp at h
    · obtain ⟨place, r, rfl, hr⟩ := exists_place hid hroot
      rw [get_ofSorted_succ hr] at h
      exact ⟨place, r, rfl, hr, (Option.some.inj h).symm⟩
  · rw [get_ofSorted_of_le (Nat.not_le.mp hid)] at h
    cases h

/-! ## The tree -/

theorem children_ofSorted {id : ScopeId} (h : id ≤ regions.length) :
    ((ofSorted s inert regions).get id).children = childrenIn regions id := by
  by_cases hroot : id = root
  · rw [hroot, get_ofSorted_root]
  · obtain ⟨place, r, rfl, hr⟩ := exists_place h hroot
    rw [get_ofSorted_succ hr, scopeIn]

theorem mem_children_ofSorted {parent id : ScopeId} :
    id ∈ ((ofSorted s inert regions).get parent).children ↔
      id < (ofSorted s inert regions).scopes.size ∧
        ((ofSorted s inert regions).get id).parent = some parent := by
  constructor
  · intro h
    by_cases hparent : parent ≤ regions.length
    · rw [children_ofSorted hparent, childrenIn, mem_childrenOfParent] at h
      obtain ⟨place, rfl, hplace⟩ := h
      rw [List.getElem?_map, Option.map_eq_some_iff] at hplace
      obtain ⟨r, hr, rfl⟩ := hplace
      rw [size_ofSorted, get_ofSorted_succ hr]
      exact ⟨Nat.succ_lt_succ (List.getElem?_eq_some_iff.mp hr).1, rfl⟩
    · rw [get_ofSorted_of_le (Nat.not_le.mp hparent)] at h
      cases h
  · rintro ⟨-, h⟩
    obtain ⟨place, r, rfl, hr, rfl⟩ := exists_region_of_parent h
    rw [children_ofSorted (parentIn_le regions r), childrenIn, mem_childrenOfParent]
    exact ⟨place, rfl, by rw [List.getElem?_map, hr, Option.map_some]⟩

theorem pairwise_children_ofSorted (id : ScopeId) :
    ((ofSorted s inert regions).get id).children.Pairwise (· < ·) := by
  by_cases hid : id ≤ regions.length
  · rw [children_ofSorted hid]
    exact pairwise_childrenOfParent _ id
  · rw [get_ofSorted_of_le (Nat.not_le.mp hid)]
    exact .nil

/-- How many scopes there are around a scope at most. -/
def rankIn (regions : List Region) (id : ScopeId) : Nat :=
  match id with
  | 0 => 0
  | place + 1 =>
    match regions[place]? with
    | none => 0
    | some r => Region.containersOf regions r.span + 1

theorem rankIn_succ {place : Nat} {r : Region} (h : regions[place]? = some r) :
    rankIn regions (place + 1) = Region.containersOf regions r.span + 1 := by
  simp only [rankIn, h]

theorem isTree_ofSorted (s : Source) (inert : Inert) (regions : List Region) :
    (ofSorted s inert regions).IsTree (rankIn regions) where
  size_pos := by
    rw [size_ofSorted]
    exact Nat.succ_pos _
  parent_root := by rw [get_ofSorted_root]
  exists_parent := by
    intro id hid hroot
    rw [size_ofSorted] at hid
    obtain ⟨place, r, rfl, hr⟩ := exists_place (Nat.le_of_lt_succ hid) hroot
    exact ⟨parentIn regions r, by rw [get_ofSorted_succ hr, scopeIn]⟩
  mem_children_iff _ _ := mem_children_ofSorted
  nodup_children id := (pairwise_children_ofSorted id).imp Nat.ne_of_lt
  parent_lt := by
    intro id parent h
    obtain ⟨place, r, -, -, rfl⟩ := exists_region_of_parent h
    rw [size_ofSorted]
    exact Nat.lt_succ_of_le (parentIn_le regions r)
  rank_parent := by
    intro id parent h
    obtain ⟨place, r, rfl, hr, rfl⟩ := exists_region_of_parent h
    rw [rankIn_succ hr]
    rcases parentIn_eq regions r with hroot | ⟨above, c, hplace, hc, hspan, -⟩
    · rw [hroot]
      exact Nat.succ_pos _
    · have hmem := List.mem_of_getElem? hc
      have hlt := Region.containersOf_lt_containersOf hmem hspan
      rw [hplace, rankIn_succ hc]
      exact Nat.succ_lt_succ hlt
  rank_lt := by
    intro id hid
    rw [size_ofSorted] at hid ⊢
    by_cases hroot : id = root
    · rw [hroot]
      exact Nat.succ_pos _
    · obtain ⟨place, r, rfl, hr⟩ := exists_place (Nat.le_of_lt_succ hid) hroot
      have hlt := Region.containersOf_lt_length (List.mem_of_getElem? hr)
      rw [rankIn_succ hr]
      exact Nat.succ_lt_succ hlt

theorem strictlyWithin_of_mem_ancestors {place above : Nat} {r c : Region}
    (hr : regions[place]? = some r) (hc : regions[above]? = some c)
    (h : above + 1 ∈ (ofSorted s inert regions).ancestors (place + 1)) :
    r.span.StrictlyWithin c.span := by
  unfold ancestors at h
  generalize (ofSorted s inert regions).scopes.size = height at h
  induction height generalizing place r with
  | zero => simp [Outline.above] at h
  | succ height ih =>
    rw [Outline.above, get_ofSorted_succ hr, scopeIn] at h
    simp only [List.mem_cons] at h
    rcases parentIn_eq regions r with hroot | ⟨next, d, hnext, hd, hspan, -⟩
    · rw [hroot, (isTree_ofSorted s inert regions).above_root] at h
      simp [root] at h
    · rw [hnext, Nat.add_right_cancel_iff] at h
      rcases h with rfl | h
      · obtain rfl : c = d := Option.some.inj (hc.symm.trans hd)
        exact hspan
      · exact hspan.trans (ih hd h)

/-! ## Outlines of units -/

/-- Whether a unit has an outline with a property can be decided by computing it. -/
theorem exists_ofSource {P : Outline → Prop} [DecidablePred P]
    (h : (Outline.ofSource s).toOption.any (fun o => decide (P o)) = true) :
    ∃ o, Outline.ofSource s = .ok o ∧ P o := by
  cases ho : Outline.ofSource s with
  | error e =>
    rw [ho] at h
    cases h
  | ok o =>
    rw [ho] at h
    exact ⟨o, rfl, of_decide_eq_true h⟩

end ScopeLint.Outline
