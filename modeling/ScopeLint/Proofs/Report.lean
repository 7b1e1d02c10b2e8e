import ScopeLint.Report

/-!
# What a report shows

The lines of a section are those of its blocks, one block for each heading of a unit.
-/

namespace ScopeLint.Report

/-- Findings of one unit under the heading that they are shown under. -/
structure Block where
  unit : String
  heading : Heading
  findings : List Finding
  deriving DecidableEq, Repr

def Block.lines (b : Block) : List String :=
  s!"  {b.heading.name} -- {b.heading.description}" :: b.findings.map fun f => s!"    {f.text}"

def unitBlocks (heading : Nat → Heading) (entry : String × Findings) : List Block :=
  (entry.2.groups.filter fun group => !group.2.isEmpty).map
    fun group => ⟨entry.1, heading group.1, group.2⟩

def ruleBlocks (r : Report) : List Block :=
  (unitsInOrder Natural.le r.ruleFindings).flatMap (unitBlocks (ruleHeading r.book))

variable {heading : Nat → Heading}

theorem flatMap_groupLines (unit : String) (groups : List (Nat × List Finding)) :
    groups.flatMap (groupLines heading) =
      (unitBlocks heading (unit, ⟨groups⟩)).flatMap Block.lines := by
  unfold unitBlocks
  induction groups with
  | nil => rfl
  | cons group rest ih =>
    rw [List.flatMap_cons, ih, groupLines]
    cases hempty : group.2.isEmpty with
    | true => simp [hempty]
    | false => simp [hempty, Block.lines]

theorem unitLines_eq (entry : String × Findings) :
    unitLines heading entry =
      s!"+ {entry.1} ----------" :: (unitBlocks heading entry).flatMap Block.lines := by
  unfold unitLines
  rw [flatMap_groupLines entry.1]

theorem exists_of_mem_ruleBlocks {r : Report} {b : Block} (h : b ∈ r.ruleBlocks) :
    ∃ entry ∈ r.ruleFindings.entries, ∃ group ∈ entry.2.groups,
      b = ⟨entry.1, ruleHeading r.book group.1, group.2⟩ := by
  unfold ruleBlocks unitBlocks at h
  obtain ⟨entry, hentry, h⟩ := List.mem_flatMap.mp h
  obtain ⟨group, hgroup, rfl⟩ := List.mem_map.mp h
  have hmem := List.mem_filter.mp ((perm_sortBy _ _).mem_iff.mp hentry)
  exact ⟨entry, hmem.1, group, (List.mem_filter.mp hgroup).1, rfl⟩

end ScopeLint.Report
