import ScopeLint.Proofs.Outline.Innermost
import ScopeLint.Proofs.Region.Admission
import ScopeLint.Proofs.Rule.Place

/-!
# Outlines keep comments and macro definitions

Each comment and each macro definition of a unit is one scope of its outline, and these scopes answer
whether a position is in a comment as the comments themselves do.
-/

namespace ScopeLint

/-! ## Settled kinds -/

namespace Region

theorem isOf_settledKind {kinds : KindSet} (hkinds : kinds ∈ [KindSet.comments, .globalDefines])
    (kind : Kind) (name : String) (container : Kind) :
    (settledKind kind name container).isOf kinds = kind.isOf kinds ∧
      (kind.isOf kinds = true → settledKind kind name container = kind) := by
  have hnone : ∀ kinds ∈ [KindSet.comments, .globalDefines],
      (∀ k ∈ [Kind.anyFunction, .anyVariable], k.isOf kinds = false) ∧
        ∀ k ∈ [Kind.classVariable, .functionVariable, .globalVariable, .freeFunction,
          .classFunction], k.isOf kinds = false := by decide
  rcases settledKind_cases kind name container with ⟨hkept, -⟩ | ⟨hkind, hsettled⟩
  · simp [hkept]
  · have hkind := (hnone kinds hkinds).1 kind hkind
    have hsettled := (hnone kinds hkinds).2 _ hsettled
    simp [hkind, hsettled]

/-! ## Regions in order -/

theorem filter_comments_sorted {s : Source} {regions : List Region}
    (h : ofCode (Code.ofSource s) = .ok regions) :
    (sortByStart (admitted s regions)).filter (·.kind.isOf .comments) =
      (Inert.ofSource s).comments.toList.map (ofComment s) := by
  rw [filter_sortByStart, filter_comments_admitted h]
  apply sortByStart_eq_self
  have hstarts := List.pairwise_map.mp (Inert.comments_inOrder s).starts
  exact List.pairwise_map.mpr (hstarts.imp Position.le_of_lt)

theorem filter_defines_sorted {s : Source} {regions : List Region}
    (h : ofCode (Code.ofSource s) = .ok regions) :
    (sortByStart (admitted s regions)).filter (·.kind.isOf .globalDefines) =
      (MacroDefinition.ofSource s (Inert.ofSource s)).map ofMacro := by
  rw [filter_sortByStart, filter_defines_admitted h]
  apply sortByStart_eq_self
  refine List.pairwise_map.mpr ((MacroDefinition.pairwise_ofSource s).imp_of_mem ?_)
  intro a b ha _ hab
  have hfits := (MacroDefinition.fitsIn_of_mem_ofSource ha).1
  simp only [ofMacro, Position.le_def] at hfits ⊢
  omega

end Region

def Scope.region (scope : Scope) : Region := ⟨scope.kind, scope.name, scope.span⟩

namespace Outline

/-! ## Scopes of some kinds -/

section

variable {s : Source} {inert : Inert} {regions : List Region}

theorem map_get_ofSorted (s : Source) (inert : Inert) (regions : List Region) :
    (List.range' 1 regions.length).map (ofSorted s inert regions).get =
      regions.zipIdx.map fun entry => scopeIn regions entry.1 entry.2 := by
  apply List.ext_getElem
  · simp
  · intro place hplace _
    simp only [List.length_map, List.length_range'] at hplace
    have hr : regions[place]? = some regions[place] := List.getElem?_eq_getElem hplace
    simp [Nat.add_comm 1 place, get_ofSorted_succ hr]

theorem perm_get_descendants (s : Source) (inert : Inert) (regions : List Region) :
    (((ofSorted s inert regions).descendants root).map (ofSorted s inert regions).get).Perm
      (regions.zipIdx.map fun entry => scopeIn regions entry.1 entry.2) := by
  have hperm := (isTree_ofSorted s inert regions).perm_descendants_root
  rw [size_ofSorted, Nat.add_sub_cancel] at hperm
  rw [← map_get_ofSorted s inert]
  exact hperm.map _

/-- The scopes of kinds that are never settled anew are the regions of these kinds. -/
theorem perm_descendantsOf {kinds : KindSet}
    (hkinds : kinds ∈ [KindSet.comments, .globalDefines]) :
    (((ofSorted s inert regions).descendantsOf root kinds).map
        fun id => ((ofSorted s inert regions).get id).region).Perm
      (regions.filter (·.kind.isOf kinds)) := by
  have hkind := fun r : Region => Region.isOf_settledKind hkinds r.kind r.name
    (containerKind (r.container? regions.zipIdx))
  have hscopes : ((regions.zipIdx.map fun entry => scopeIn regions entry.1 entry.2).filter
      (·.kind.isOf kinds)).map Scope.region = regions.filter (·.kind.isOf kinds) := by
    rw [List.filter_map, List.map_map]
    conv_rhs => rw [← List.zipIdx_map_fst 0 regions, List.filter_map]
    rw [List.filter_congr fun entry _ => (hkind entry.1).1]
    apply List.map_congr_left
    intro entry hentry
    have hof := (List.mem_filter.mp hentry).2
    simp [scopeIn, Scope.region, (hkind entry.1).2 hof]
  have hperm := ((perm_get_descendants s inert regions).filter (·.kind.isOf kinds)).map Scope.region
  rw [hscopes, List.filter_map, List.map_map] at hperm
  exact hperm

end

/-! ## Outlines of units -/

/-- Each comment and each macro definition is one scope, and the scopes of comments hold the
positions that are in comments. -/
structure KeepsInert (s : Source) (o : Outline) : Prop where
  comments : ((o.descendantsOf root .comments).map fun id => (o.get id).region).Perm
    ((Inert.ofSource s).comments.toList.map (Region.ofComment s))
  comment_name : ∀ id ∈ o.descendantsOf root .comments,
    (o.get id).name = String.ofList (o.scopeText id)
  defines : ((o.descendantsOf root .globalDefines).map fun id => (o.get id).region).Perm
    ((MacroDefinition.ofSource s (Inert.ofSource s)).map Region.ofMacro)
  inComment_iff : ∀ p, o.inert.inComment p = true ↔
    ∃ id ∈ o.descendantsOf root .comments, p ∈ (o.get id).span

variable {s : Source} {o : Outline}

theorem exists_region_ofSource {id : ScopeId} (h : Outline.ofSource s = .ok o)
    (hid : id < o.scopes.size) (hroot : id ≠ root) :
    ∃ regions, Region.ofCode (Code.ofSource s) = .ok regions ∧ ∃ r ∈ regions, ∃ container,
        (o.get id).region = ⟨Region.settledKind r.kind r.name container, r.name, r.span⟩ := by
  obtain ⟨regions, hregions, rfl⟩ := Region.exists_of_map_eq_ok h
  obtain hroot' | ⟨place, r, rfl, hr⟩ := eq_root_or_exists_place hid
  · exact absurd hroot' hroot
  · have hmem := Region.mem_of_mem_admitted
      (Region.mem_of_mem_sortByStart (List.mem_of_getElem? hr))
    exact ⟨regions, hregions, r, hmem, _, congrArg Scope.region (get_ofSorted_succ hr)⟩

theorem inert_ofSource (h : Outline.ofSource s = .ok o) : o.inert = Inert.ofSource s := by
  obtain ⟨regions, -, rfl⟩ := Region.exists_of_map_eq_ok h
  rfl

theorem perm_comments_ofSource (h : Outline.ofSource s = .ok o) :
    ((o.descendantsOf root .comments).map fun id => (o.get id).region).Perm
      ((Inert.ofSource s).comments.toList.map (Region.ofComment s)) := by
  obtain ⟨regions, hregions, rfl⟩ := Region.exists_of_map_eq_ok h
  rw [← Region.filter_comments_sorted hregions]
  exact perm_descendantsOf (by simp)

theorem perm_defines_ofSource (h : Outline.ofSource s = .ok o) :
    ((o.descendantsOf root .globalDefines).map fun id => (o.get id).region).Perm
      ((MacroDefinition.ofSource s (Inert.ofSource s)).map Region.ofMacro) := by
  obtain ⟨regions, hregions, rfl⟩ := Region.exists_of_map_eq_ok h
  rw [← Region.filter_defines_sorted hregions]
  exact perm_descendantsOf (by simp)

/-- No comment and no macro definition of a unit is lost. -/
theorem keepsInert_ofSource (h : Outline.ofSource s = .ok o) : o.KeepsInert s := by
  have hcomments := perm_comments_ofSource h
  have hregion : ∀ {r : Region},
      (∃ id ∈ o.descendantsOf root .comments, (o.get id).region = r) ↔
        ∃ c ∈ (Inert.ofSource s).comments.toList, Region.ofComment s c = r := by
    intro r
    rw [← List.mem_map, hcomments.mem_iff, List.mem_map]
  constructor
  case comments => exact hcomments
  case defines => exact perm_defines_ofSource h
  case comment_name =>
    intro id hid
    obtain ⟨c, -, hc⟩ := hregion.mp ⟨id, hid, rfl⟩
    obtain ⟨-, hname, hspan⟩ := Region.mk.inj hc
    rw [← hname, scopeText, source_ofSource h, ← hspan]
  case inComment_iff =>
    intro p
    rw [inert_ofSource h, Inert.inComment_iff]
    constructor
    · rintro ⟨c, hc, hp⟩
      obtain ⟨id, hid, hregion⟩ := hregion.mpr ⟨c, hc, rfl⟩
      have hspan : (o.get id).span = c.span := congrArg Region.span hregion
      exact ⟨id, hid, hspan ▸ hp⟩
    · rintro ⟨id, hid, hp⟩
      obtain ⟨c, hc, hregion⟩ := hregion.mp ⟨id, hid, rfl⟩
      have hspan : c.span = (o.get id).span := congrArg Region.span hregion
      exact ⟨c, hc, hspan ▸ hp⟩

def annotatedClass : Source :=
  ⟨"unit.cpp", ["#define LIMIT 8 // eight".toList, "class A \x7b /* one".toList,
    "  class B \x7b \x7d; */ // two".toList, "\x7d;".toList]⟩

/-- The class in the comment is no scope, and the comments and the macro are. -/
theorem keepsInert_annotatedClass :
    ∃ o, Outline.ofSource annotatedClass = .ok o ∧
      (o.descendantsOf root .comments).length = 3 ∧
      (o.descendantsOf root .globalDefines).length = 1 ∧
      (o.descendantsOf root .classes).length = 1 ∧ o.KeepsInert annotatedClass := by
  obtain ⟨o, ho, hcounts⟩ := exists_ofSource (s := annotatedClass)
    (P := fun o => (o.descendantsOf root .comments).length = 3 ∧
      (o.descendantsOf root .globalDefines).length = 1 ∧
      (o.descendantsOf root .classes).length = 1) (by decide +kernel)
  exact ⟨o, ho, hcounts.1, hcounts.2.1, hcounts.2.2, keepsInert_ofSource ho⟩

end Outline

end ScopeLint
