import ScopeLint.Proofs.Outline.Inert

/-!
# Admitted regions in the outline

What would be refused on account of a region cannot hang below it: comments hold nothing, and no
function is inside a function or a conditional.
-/

namespace ScopeLint.Outline

variable {s : Source} {inert : Inert} {found : List Region}

/-! ## Below admitted regions -/

theorem not_refused_of_mem_sorted {r : Region}
    (h : r ∈ Region.sortByStart (Region.admitted s found)) :
    ¬Region.Refused s (Region.admitted s found) r :=
  (Region.mem_admitted_iff.mp (Region.mem_of_mem_sortByStart h)).2

theorem children_of_isOf_comments {id : ScopeId}
    (h : ((ofRegions s inert found).get id).kind.isOf .comments = true) :
    ((ofRegions s inert found).get id).children = [] := by
  apply List.eq_nil_iff_forall_not_mem.mpr
  intro child hchild
  obtain ⟨place, r, rfl, hr, rfl⟩ := exists_region_of_parent (mem_children_ofSorted.mp hchild).2
  rcases parentIn_eq _ r with hroot | ⟨above, c, habove, hc, hspan, -⟩
  · rw [hroot, ofRegions, get_ofSorted_root] at h
    exact absurd h (by decide : ¬Kind.source.isOf .comments = true)
  · rw [habove, ofRegions, get_ofSorted_succ hc, scopeIn,
      (Region.isOf_settledKind (by simp) _ _ _).1] at h
    have hadmitted := Region.mem_of_mem_sortByStart (List.mem_of_getElem? hc)
    exact not_refused_of_mem_sorted (List.mem_of_getElem? hr) (.inr (.inl ⟨c, hadmitted, h, hspan⟩))

theorem kind_of_strictlyWithin {r c : Region}
    (hr : r ∈ Region.sortByStart (Region.admitted s found))
    (hc : c ∈ Region.sortByStart (Region.admitted s found)) (hfunction : r.kind = .anyFunction)
    (hspan : r.span.StrictlyWithin c.span) : c.kind ≠ .anyFunction ∧ c.kind ≠ .conditional := by
  rw [← not_or]
  intro hbody
  have hadmitted := Region.mem_of_mem_sortByStart hc
  exact not_refused_of_mem_sorted hr (.inr (.inr (.inl ⟨hfunction, c, hadmitted, hbody, hspan⟩)))

/-! ## Admission -/

/-- The outline of the regions found keeps all of them but those that are refused on account of what
is kept. -/
structure KeepsUnrefused (s : Source) (found kept : List Region) (o : Outline) : Prop where
  sublist : kept.Sublist found
  kept_eq : kept = found.filter fun r => !decide (Region.Refused s kept r)
  again : Region.admitted s kept = kept
  comment_children : ∀ id, (o.get id).kind.isOf .comments = true → (o.get id).children = []
  /-- Scope number `n + 1` is that of region `n` in the order of starts. -/
  function_outermost : ∀ place r, (Region.sortByStart kept)[place]? = some r →
    r.kind = .anyFunction → ∀ above c, (Region.sortByStart kept)[above]? = some c →
      above + 1 ∈ o.ancestors (place + 1) → c.kind ≠ .anyFunction ∧ c.kind ≠ .conditional

/-- Among any regions, what is dropped is dropped on account of what is kept. -/
theorem keepsUnrefused_ofRegions (s : Source) (inert : Inert) (found : List Region) :
    (ofRegions s inert found).KeepsUnrefused s found (Region.admitted s found) where
  sublist := by
    rw [Region.admitted_eq_filter]
    exact List.filter_sublist
  kept_eq := Region.admitted_eq_filter s found
  again := Region.admitted_admitted s found
  comment_children := fun _ => children_of_isOf_comments
  function_outermost := by
    intro place r hr hfunction above c hc habove
    have hspan := strictlyWithin_of_mem_ancestors hr hc habove
    exact kind_of_strictlyWithin (List.mem_of_getElem? hr) (List.mem_of_getElem? hc) hfunction hspan

end ScopeLint.Outline
