import ScopeLint.Proofs.Outline.Admission

/-!
# Kinds that fit the outline

Kinds are settled by what the regions around were found as. The finished outline alone tells the
same: no function is in a function, so each function is a free one or one of a class, and what it
holds can be seen from either.
-/

namespace ScopeLint

/-! ## Qualified names -/

theorem isQualified_iff (text : List Char) : isQualified text = true ↔ [':', ':'] <:+: text := by
  fun_induction isQualified text with
  | case1 rest => exact iff_of_true rfl ⟨[], rest, rfl⟩
  | case2 c rest hc ih =>
    rw [ih, List.infix_cons_iff, or_iff_right]
    rintro ⟨back, hback⟩
    obtain ⟨hcolon, hrest⟩ := List.cons.inj hback
    exact hc back hcolon.symm hrest.symm
  | case3 => simp

namespace Region

/-! ## Kinds of regions that are found -/

def foundKinds : List Kind :=
  [.singleLineComment, .multiLineComment, .globalDefine, .namespaceBlock, .enumBlock, .classBlock,
    .anyFunction, .anyVariable, .conditional]

theorem kind_mem_foundKinds {s : Source} {regions : List Region}
    (h : ofCode (Code.ofSource s) = .ok regions) : ∀ r ∈ regions, r.kind ∈ foundKinds := by
  obtain ⟨found, hfound, rfl⟩ := exists_of_ofCode h
  intro r hr
  simp only [List.mem_append, List.mem_map] at hr
  rcases hr with (⟨c, -, rfl⟩ | ⟨d, -, rfl⟩) | hr
  · cases hstyle : c.style <;> simp [ofComment, hstyle, CommentStyle.kind, foundKinds]
  · simp [ofMacro, foundKinds]
  · have hkind := hfound r hr
    simp only [IsStructure, List.mem_cons, List.not_mem_nil, or_false] at hkind
    simp only [foundKinds, List.mem_cons, List.not_mem_nil, or_false]
    tauto

/-! ## Settling -/

theorem settledKind_variable (name : String) (container : Kind) :
    settledKind .anyVariable name container =
      if container = .source ∨ container = .namespaceBlock then .globalVariable
      else if container = .conditional ∨ container = .anyFunction then .functionVariable
      else .classVariable := by
  cases container <;> rfl

theorem settledKind_function (name : String) {container : Kind} (h : container ≠ .anyFunction) :
    settledKind .anyFunction name container =
      if container = .classBlock ∨ isQualified name.toList = true then .classFunction
      else .freeFunction := by
  cases container with
  | anyFunction => exact absurd rfl h
  | classBlock => simp [settledKind]
  | _ => simp [settledKind]

theorem settledKind_of_ne {kind : Kind} (name : String) (container : Kind)
    (hfunction : kind ≠ .anyFunction) (hvariable : kind ≠ .anyVariable) :
    settledKind kind name container = kind := by
  rcases settledKind_cases kind name container with ⟨hkept, -⟩ | ⟨hkind, -⟩
  · exact hkept
  · simp [hfunction, hvariable] at hkind

/-- What a region may be in the outline, by what it was found as. -/
structure SettlesAs (found settled : Kind) : Prop where
  ofFunction : found = .anyFunction → settled ∈ [.freeFunction, .classFunction]
  ofVariable : found = .anyVariable →
    settled ∈ [.classVariable, .functionVariable, .globalVariable]
  ofOther : found ≠ .anyFunction → found ≠ .anyVariable → settled = found

theorem settlesAs_settledKind {kind container : Kind} (name : String)
    (houtermost : kind = .anyFunction → container ≠ .anyFunction) :
    SettlesAs kind (settledKind kind name container) where
  ofFunction := by
    rintro rfl
    rw [settledKind_function name (houtermost rfl)]
    split <;> simp
  ofVariable := by
    rintro rfl
    rw [settledKind_variable]
    split
    · simp
    · split <;> simp
  ofOther := settledKind_of_ne name container

theorem settlesAs_source : SettlesAs .source .source where
  ofFunction := by simp
  ofVariable := by simp
  ofOther := fun _ _ => rfl

/-- The kinds that a variable or function asks its container for are told by the settled ones. -/
theorem SettlesAs.iff {found settled : Kind} (h : SettlesAs found settled)
    (hfound : found = .source ∨ found ∈ foundKinds) :
    (settled = .source ∨ settled = .namespaceBlock ↔ found = .source ∨ found = .namespaceBlock) ∧
      (settled = .conditional ∨ settled = .freeFunction ∨ settled = .classFunction ↔
        found = .conditional ∨ found = .anyFunction) ∧
      (settled = .classBlock ↔ found = .classBlock) := by
  simp only [foundKinds, List.mem_cons, List.not_mem_nil, or_false] at hfound
  by_cases hfunction : found = .anyFunction
  · have hsettled := h.ofFunction hfunction
    grind
  · by_cases hvariable : found = .anyVariable
    · have hsettled := h.ofVariable hvariable
      grind
    · rw [h.ofOther hfunction hvariable]
      grind

/-- The kind of a scope, seen from the kind of its parent in the outline. -/
structure KindFits (r : Region) (parent settled : Kind) : Prop where
  global_iff : r.kind = .anyVariable →
    (settled = .globalVariable ↔ parent = .source ∨ parent = .namespaceBlock)
  local_iff : r.kind = .anyVariable → (settled = .functionVariable ↔
    parent = .conditional ∨ parent = .freeFunction ∨ parent = .classFunction)
  member_iff : r.kind = .anyVariable → (settled = .classVariable ↔
    ¬(parent = .source ∨ parent = .namespaceBlock) ∧
      ¬(parent = .conditional ∨ parent = .freeFunction ∨ parent = .classFunction))
  method_iff : r.kind = .anyFunction →
    (settled = .classFunction ↔ parent = .classBlock ∨ "::".toList <:+: r.name.toList)
  free_iff : r.kind = .anyFunction →
    (settled = .freeFunction ↔ ¬(parent = .classBlock ∨ "::".toList <:+: r.name.toList))
  not_local : r.kind = .anyFunction → settled ≠ .functionVariable
  kept : r.kind ≠ .anyFunction → r.kind ≠ .anyVariable → settled = r.kind

theorem kindFits_settledKind {r : Region} {container parent : Kind}
    (hcontainer : container = .source ∨ container ∈ foundKinds)
    (hparent : SettlesAs container parent)
    (houtermost : r.kind = .anyFunction → container ≠ .anyFunction) :
    r.KindFits parent (settledKind r.kind r.name container) := by
  obtain ⟨hglobal, hlocal, hclass⟩ := hparent.iff hcontainer
  have hvariable (hkind : r.kind = .anyVariable) := hkind ▸ settledKind_variable r.name container
  have hfunction (hkind : r.kind = .anyFunction) :=
    hkind ▸ settledKind_function r.name (houtermost hkind)
  simp only [← hglobal, ← hlocal] at hvariable
  simp only [← hclass, isQualified_iff] at hfunction
  clear hglobal hlocal hclass
  constructor
  case global_iff | local_iff | member_iff =>
    intro hkind
    rw [hvariable hkind]
    grind
  case method_iff | free_iff =>
    intro hkind
    rw [hfunction hkind]
    split <;> simp_all
  case not_local =>
    intro hkind
    rw [hfunction hkind]
    split <;> simp
  case kept => exact settledKind_of_ne r.name container

end Region

namespace Outline

variable {s : Source} {inert : Inert} {found : List Region}

/-! ## Kinds in the outline -/

theorem containerKind_cases (regions : List Region) (r : Region) :
    containerKind (r.container? regions.zipIdx) = .source ∧ parentIn regions r = root ∨
      ∃ above c, regions[above]? = some c ∧ r.span.StrictlyWithin c.span ∧
        containerKind (r.container? regions.zipIdx) = c.kind ∧ parentIn regions r = above + 1 := by
  cases hc : r.container? regions.zipIdx with
  | none => exact .inl ⟨rfl, by rw [parentIn, hc]; rfl⟩
  | some found =>
    obtain ⟨c, above⟩ := found
    obtain ⟨habove, hspan, -⟩ := Region.container?_eq_some hc
    exact .inr ⟨above, c, habove, hspan, rfl, by rw [parentIn, hc]; rfl⟩

theorem containerKind_ne_anyFunction {r : Region}
    (hr : r ∈ Region.sortByStart (Region.admitted s found)) (hkind : r.kind = .anyFunction) :
    containerKind (r.container? (Region.sortByStart (Region.admitted s found)).zipIdx) ≠
      .anyFunction := by
  rcases containerKind_cases _ r with ⟨hsource, -⟩ | ⟨above, c, hc, hspan, hcontainer, -⟩
  · rw [hsource]
    decide
  · rw [hcontainer]
    exact (kind_of_strictlyWithin hr (List.mem_of_getElem? hc) hkind hspan).1

/-- Among regions of the kinds that are found, each settled kind fits the finished outline. -/
theorem kindFits_ofRegions (hfound : ∀ r ∈ found, r.kind ∈ Region.foundKinds) {place : Nat}
    {r : Region} (hplace : (Region.sortByStart (Region.admitted s found))[place]? = some r) :
    ∃ parent, ((ofRegions s inert found).get (place + 1)).parent = some parent ∧
      r.KindFits ((ofRegions s inert found).get parent).kind
        ((ofRegions s inert found).get (place + 1)).kind := by
  have hr := List.mem_of_getElem? hplace
  refine ⟨parentIn _ r, by rw [ofRegions, get_ofSorted_succ hplace, scopeIn], ?_⟩
  rw [ofRegions, get_ofSorted_succ hplace, scopeIn]
  rcases containerKind_cases _ r with ⟨hsource, hroot⟩ | ⟨above, c, hc, -, hcontainer, habove⟩
  · rw [hroot, get_ofSorted_root]
    refine Region.kindFits_settledKind (.inl hsource) ?_ (containerKind_ne_anyFunction hr)
    rw [hsource]
    exact Region.settlesAs_source
  · have hc' := List.mem_of_getElem? hc
    have hkind := hfound c (Region.mem_of_mem_admitted (Region.mem_of_mem_sortByStart hc'))
    rw [habove, get_ofSorted_succ hc, scopeIn]
    refine Region.kindFits_settledKind (.inr (hcontainer ▸ hkind)) ?_
      (containerKind_ne_anyFunction hr)
    rw [hcontainer]
    exact Region.settlesAs_settledKind c.name (containerKind_ne_anyFunction hc')

def methodRegions : List Region :=
  [⟨.anyFunction, "Shape::area", ⟨⟨6, 0⟩, ⟨8, 0⟩⟩⟩, ⟨.anyFunction, "scale", ⟨⟨1, 2⟩, ⟨3, 2⟩⟩⟩,
    ⟨.anyVariable, "factor", ⟨⟨2, 4⟩, ⟨2, 14⟩⟩⟩, ⟨.classBlock, "Shape", ⟨⟨0, 0⟩, ⟨5, 1⟩⟩⟩]

/-- The variable is one of a function, whose kind is that of a function of a class by now. -/
theorem kindFits_methodRegions :
    (∀ r ∈ methodRegions, r.kind ∈ Region.foundKinds) ∧
      ∃ r, (Region.sortByStart (Region.admitted ⟨"unit.cpp", []⟩ methodRegions))[2]? = some r ∧
        r.kind = .anyVariable ∧
        ((ofRegions ⟨"unit.cpp", []⟩ ⟨#[], #[]⟩ methodRegions).get 3).kind = .functionVariable ∧
        ∃ parent, ((ofRegions ⟨"unit.cpp", []⟩ ⟨#[], #[]⟩ methodRegions).get 3).parent =
            some parent ∧
          r.KindFits ((ofRegions ⟨"unit.cpp", []⟩ ⟨#[], #[]⟩ methodRegions).get parent).kind
            ((ofRegions ⟨"unit.cpp", []⟩ ⟨#[], #[]⟩ methodRegions).get 3).kind := by
  refine ⟨by decide, ⟨.anyVariable, "factor", ⟨⟨2, 4⟩, ⟨2, 14⟩⟩⟩, by decide, rfl, by decide, ?_⟩
  exact kindFits_ofRegions (by decide) (by decide)

end Outline

end ScopeLint
