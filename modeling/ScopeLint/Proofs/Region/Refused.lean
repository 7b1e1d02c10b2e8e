import ScopeLint.Proofs.Outline.Container

/-!
# Which regions are refused

Admission drops regions in four steps, each of which looks at what the step before it left. All that
is dropped is refused on account of regions that are admitted in the end: what holds a region may be
dropped itself, but then something larger holds both.
-/

namespace ScopeLint.Region

/-! ## Reasons -/

/-- Why a region is no scope, given the regions that are: its name is reserved, it is commented out,
it is a call in a body, or it is a function that is only declared. -/
def Refused (s : Source) (kept : List Region) (r : Region) : Prop :=
  (r.kind ≠ .conditional ∧ r.name ∈ Pattern.reservedWords) ∨
    (∃ c ∈ kept, c.isComment = true ∧ r.span.StrictlyWithin c.span) ∨
    (r.kind = .anyFunction ∧
      ∃ b ∈ kept, (b.kind = .anyFunction ∨ b.kind = .conditional) ∧
        r.span.StrictlyWithin b.span) ∨
    (r.kind = .anyVariable ∧
      (∃ f ∈ kept, f.kind = .anyFunction ∧ f.span = r.span ∧ f.name = r.name) ∧
      (parenthesizedText s r).any isParameterList = true)

instance (s : Source) (kept : List Region) (r : Region) : Decidable (Refused s kept r) :=
  inferInstanceAs (Decidable (_ ∨ _ ∨ _ ∨ _))

variable {s : Source} {regions : List Region} {r : Region}

theorem Refused.mono {kept more : List Region} (hsub : ∀ k ∈ kept, k ∈ more)
    (h : Refused s kept r) : Refused s more r := by
  rcases h with hname | ⟨c, hc, hcomment⟩ | ⟨hkind, b, hb, hbody⟩ | ⟨hkind, ⟨f, hf, hsame⟩, hlist⟩
  · exact .inl hname
  · exact .inr (.inl ⟨c, hsub c hc, hcomment⟩)
  · exact .inr (.inr (.inl ⟨hkind, b, hsub b hb, hbody⟩))
  · exact .inr (.inr (.inr ⟨hkind, ⟨f, hsub f hf, hsame⟩, hlist⟩))

/-! ## Steps -/

def named (regions : List Region) : List Region := regions.filter hasFreeName

def visible (regions : List Region) : List Region :=
  (named regions).filter fun r => !r.isInside ((named regions).filter isComment)

def outer (regions : List Region) : List Region :=
  (visible regions).filter fun r =>
    !(r.kind == .anyFunction && r.isInside ((visible regions).filter isBody))

theorem admitted_eq (s : Source) (regions : List Region) :
    admitted s regions = (outer regions).filter fun r =>
      !isPrototype s ((outer regions).filter (·.kind == .anyFunction)) r :=
  rfl

theorem isInside_filter_iff {p : Region → Bool} {others : List Region} :
    r.isInside (others.filter p) = true ↔
      ∃ c ∈ others, p c = true ∧ r.span.StrictlyWithin c.span := by
  simp [isInside]

theorem mem_named : r ∈ named regions ↔
    r ∈ regions ∧ ¬(r.kind ≠ .conditional ∧ r.name ∈ Pattern.reservedWords) := by
  simp only [named, List.mem_filter, hasFreeName, Bool.or_eq_true, beq_iff_eq, Bool.not_eq_true',
    List.contains_eq_mem, decide_eq_false_iff_not]
  refine and_congr_right fun _ => ?_
  rw [not_and_or, ne_eq, not_not]

theorem mem_visible : r ∈ visible regions ↔ r ∈ named regions ∧
    ¬∃ c ∈ named regions, c.isComment = true ∧ r.span.StrictlyWithin c.span := by
  rw [visible, List.mem_filter, Bool.not_eq_true', Bool.eq_false_iff, ne_eq, isInside_filter_iff]

theorem mem_outer : r ∈ outer regions ↔ r ∈ visible regions ∧
    ¬(r.kind = .anyFunction ∧
      ∃ b ∈ visible regions, (b.kind = .anyFunction ∨ b.kind = .conditional) ∧
        r.span.StrictlyWithin b.span) := by
  rw [outer, List.mem_filter, Bool.not_eq_true', Bool.eq_false_iff, ne_eq, Bool.and_eq_true,
    beq_iff_eq, isInside_filter_iff]
  simp only [isBody, Bool.or_eq_true, beq_iff_eq]

theorem mem_admitted : r ∈ admitted s regions ↔ r ∈ outer regions ∧
    ¬(r.kind = .anyVariable ∧
      (∃ f ∈ outer regions, f.kind = .anyFunction ∧ f.span = r.span ∧ f.name = r.name) ∧
      (parenthesizedText s r).any isParameterList = true) := by
  rw [admitted_eq, List.mem_filter, Bool.not_eq_true', Bool.eq_false_iff, ne_eq]
  simp only [isPrototype, Bool.and_eq_true, beq_iff_eq, List.any_filter, List.any_eq_true,
    and_assoc]

/-! ## Survivors -/

theorem mem_admitted_of_mem_outer (h : r ∈ outer regions) (hkind : r.kind ≠ .anyVariable) :
    r ∈ admitted s regions :=
  mem_admitted.mpr ⟨h, fun hdropped => hkind hdropped.1⟩

theorem mem_outer_of_mem_visible (h : r ∈ visible regions) (hkind : r.kind ≠ .anyFunction) :
    r ∈ outer regions :=
  mem_outer.mpr ⟨h, fun hdropped => hkind hdropped.1⟩

theorem mem_visible_of_mem_admitted (h : r ∈ admitted s regions) : r ∈ visible regions :=
  (mem_outer.mp (mem_admitted.mp h).1).1

theorem mem_named_of_mem_admitted (h : r ∈ admitted s regions) : r ∈ named regions :=
  (mem_visible.mp (mem_visible_of_mem_admitted h)).1

theorem mem_of_mem_admitted (h : r ∈ admitted s regions) : r ∈ regions :=
  (mem_named.mp (mem_named_of_mem_admitted h)).1

theorem kind_of_isComment (h : r.isComment = true) :
    r.kind ≠ .anyFunction ∧ r.kind ≠ .anyVariable := by
  constructor <;> intro hkind <;> rw [isComment, hkind] at h <;> exact absurd h (by decide)

theorem exists_comment_iff :
    (∃ c ∈ named regions, c.isComment = true ∧ r.span.StrictlyWithin c.span) ↔
      ∃ c ∈ admitted s regions, c.isComment = true ∧ r.span.StrictlyWithin c.span := by
  constructor
  · rintro ⟨c, hc, hcomment, hinside⟩
    -- The outermost of the comments around the region is in no comment itself.
    obtain ⟨top, htop, hcomment, hinside, houtermost⟩ :=
      exists_outermost (P := fun c => c.isComment = true) hc hcomment hinside
    have hvisible : top ∈ visible regions :=
      mem_visible.mpr ⟨htop, fun ⟨d, hd, hdcomment, hwithin⟩ => houtermost d hd hdcomment hwithin⟩
    obtain ⟨hfunction, hvariable⟩ := kind_of_isComment hcomment
    have houter := mem_outer_of_mem_visible hvisible hfunction
    exact ⟨top, mem_admitted_of_mem_outer houter hvariable, hcomment, hinside⟩
  · rintro ⟨c, hc, hcomment, hinside⟩
    exact ⟨c, mem_named_of_mem_admitted hc, hcomment, hinside⟩

theorem exists_body_iff :
    (∃ b ∈ visible regions, (b.kind = .anyFunction ∨ b.kind = .conditional) ∧
        r.span.StrictlyWithin b.span) ↔
      ∃ b ∈ admitted s regions, (b.kind = .anyFunction ∨ b.kind = .conditional) ∧
        r.span.StrictlyWithin b.span := by
  constructor
  · rintro ⟨b, hb, hbody, hinside⟩
    -- The outermost of the bodies around the region is no function in a body.
    obtain ⟨top, htop, hbody, hinside, houtermost⟩ :=
      exists_outermost (P := fun b => b.kind = .anyFunction ∨ b.kind = .conditional) hb hbody
        hinside
    have houter : top ∈ outer regions :=
      mem_outer.mpr ⟨htop, fun ⟨_, d, hd, hdbody, hwithin⟩ => houtermost d hd hdbody hwithin⟩
    have hvariable : top.kind ≠ .anyVariable := by
      intro hkind
      simp [hkind] at hbody
    exact ⟨top, mem_admitted_of_mem_outer houter hvariable, hbody, hinside⟩
  · rintro ⟨b, hb, hbody, hinside⟩
    exact ⟨b, mem_visible_of_mem_admitted hb, hbody, hinside⟩

theorem exists_function_iff {f : Region} (hfunction : f.kind = .anyFunction) :
    f ∈ outer regions ↔ f ∈ admitted s regions := by
  refine ⟨fun houter => mem_admitted_of_mem_outer houter ?_, fun h => (mem_admitted.mp h).1⟩
  rw [hfunction]
  decide

/-! ## What is admitted -/

/-- A region is dropped exactly when it is refused on account of what is admitted. -/
theorem mem_admitted_iff :
    r ∈ admitted s regions ↔ r ∈ regions ∧ ¬Refused s (admitted s regions) r := by
  have hfunctions : (∃ f ∈ outer regions,
        f.kind = .anyFunction ∧ f.span = r.span ∧ f.name = r.name) ↔
      ∃ f ∈ admitted s regions, f.kind = .anyFunction ∧ f.span = r.span ∧ f.name = r.name := by
    refine exists_congr fun f => ?_
    exact and_congr_left fun hsame => exists_function_iff hsame.1
  rw [mem_admitted, mem_outer, mem_visible, mem_named, hfunctions, exists_body_iff (s := s),
    exists_comment_iff (s := s), Refused]
  simp only [not_or, and_assoc]

theorem admitted_eq_filter (s : Source) (regions : List Region) :
    admitted s regions = regions.filter fun r => !decide (Refused s (admitted s regions) r) := by
  obtain ⟨kept, hkept⟩ : ∃ kept, admitted s regions = regions.filter kept := by
    simp only [admitted_eq, outer, visible, named, List.filter_filter]
    exact ⟨_, rfl⟩
  rw [hkept]
  apply List.filter_congr
  intro r hr
  have hiff : r ∈ admitted s regions ↔ r ∈ regions ∧ ¬Refused s (admitted s regions) r :=
    mem_admitted_iff
  rw [hkept, List.mem_filter] at hiff
  simp only [hr, true_and] at hiff
  rw [Bool.eq_iff_iff, hiff]
  simp

/-- The call `second` is in the call `first`, which is in `main`: both are dropped, and `main` is
the reason for both. -/
example : admitted ⟨"unit.cpp", []⟩
    [⟨.anyFunction, "second", ⟨⟨1, 8⟩, ⟨1, 16⟩⟩⟩, ⟨.anyFunction, "first", ⟨⟨1, 2⟩, ⟨1, 18⟩⟩⟩,
      ⟨.anyFunction, "main", ⟨⟨0, 0⟩, ⟨2, 0⟩⟩⟩] = [⟨.anyFunction, "main", ⟨⟨0, 0⟩, ⟨2, 0⟩⟩⟩] := by
  decide

theorem admitted_admitted (s : Source) (regions : List Region) :
    admitted s (admitted s regions) = admitted s regions := by
  rw [admitted_eq_filter s (admitted s regions)]
  apply List.filter_eq_self.mpr
  intro r hr
  have hfree := (mem_admitted_iff.mp hr).2
  have hstill : ¬Refused s (admitted s (admitted s regions)) r :=
    fun h => hfree (h.mono fun _ => mem_of_mem_admitted)
  simp [hstill]

end ScopeLint.Region
