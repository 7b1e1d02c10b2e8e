import Mathlib.Data.List.Induction
import ScopeLint.Proofs.Finding
import ScopeLint.Proofs.Report
import ScopeLint.Proofs.Text.Natural
import ScopeLint.Proofs.UnitMap

/-!
# What a report shows of the findings that came in

A section shows the units with findings in order, under each of them the numbers with findings, and
under each number its findings as they came in. There is one way only to show them so, and with it
the lines are settled.
-/

namespace ScopeLint

/-- What came in for units: the numbers and findings of each in the order in which they came. A
later entry for a unit takes the place of an earlier one. -/
abbrev Log := List (String × List (Nat × Finding))

namespace Log

def gathered (pushes : List (Nat × Finding)) : Findings :=
  pushes.foldl (fun all push => all.push push.1 push.2) ∅

def findings (log : Log) : UnitMap Findings :=
  log.foldl (fun units entry => units.insert entry.1 (gathered entry.2)) ∅

/-- What came in for the unit under the number, oldest first. -/
def under (log : Log) (unit : String) (id : Nat) : List Finding :=
  (((log.reverse.lookup unit).getD []).filter fun push => decide (push.1 = id)).map Prod.snd

theorem gathered_append (pushes : List (Nat × Finding)) (push : Nat × Finding) :
    gathered (pushes ++ [push]) = (gathered pushes).push push.1 push.2 := by
  rw [gathered, List.foldl_append]
  rfl

theorem grouped_gathered (pushes : List (Nat × Finding)) : (gathered pushes).Grouped := by
  induction pushes using List.reverseRecOn with
  | nil => exact Findings.grouped_empty
  | append_singleton pushes push ih =>
    rw [gathered_append]
    exact ih.push push.1 push.2

theorem get_gathered (pushes : List (Nat × Finding)) (id : Nat) : (gathered pushes).get id =
    (pushes.filter fun push => decide (push.1 = id)).map Prod.snd := by
  induction pushes using List.reverseRecOn with
  | nil => rfl
  | append_singleton pushes push ih =>
    rw [gathered_append, (grouped_gathered pushes).get_push, ih, List.filter_append, List.map_append]
    by_cases hid : push.1 = id
    · simp [hid]
    · simp [hid]

theorem findings_append (log : Log) (entry : String × List (Nat × Finding)) :
    findings (log ++ [entry]) = log.findings.insert entry.1 (gathered entry.2) := by
  rw [findings, List.foldl_append]
  rfl

theorem sorted_findings (log : Log) : log.findings.Sorted := by
  induction log using List.reverseRecOn with
  | nil => exact UnitMap.sorted_empty
  | append_singleton log entry ih =>
    rw [findings_append]
    exact ih.insert entry.1 (gathered entry.2)

theorem grouped_findings (log : Log) : ∀ entry ∈ log.findings.entries, entry.2.Grouped := by
  induction log using List.reverseRecOn with
  | nil => exact fun _ h => by cases h
  | append_singleton log entry ih =>
    rw [findings_append]
    intro other hother
    rcases UnitMap.mem_insertInto hother with rfl | hother
    · exact grouped_gathered entry.2
    · exact ih other hother

theorem get?_findings (log : Log) (unit : String) :
    log.findings.get? unit = (log.reverse.lookup unit).map gathered := by
  induction log using List.reverseRecOn with
  | nil => rfl
  | append_singleton log entry ih =>
    obtain ⟨other, pushes⟩ := entry
    rw [findings_append, List.reverse_append, List.reverse_singleton, List.singleton_append,
      List.lookup_cons]
    by_cases hunit : unit = other
    · subst hunit
      rw [UnitMap.get?_insert_self, beq_self_eq_true]
      rfl
    · have hbeq : (unit == other) = false := by simpa using hunit
      rw [UnitMap.get?_insert_of_ne _ hunit, ih, hbeq]

theorem under_eq_of_perm {log other : Log} (hunits : (log.map Prod.fst).Nodup)
    (hperm : other.Perm log) : other.under = log.under := by
  have hlookup : ∀ {log : Log}, (log.map Prod.fst).Nodup → ∀ {unit pushes},
      log.reverse.lookup unit = some pushes ↔ (unit, pushes) ∈ log := by
    intro log hunits unit pushes
    rw [← List.mem_reverse, mem_iff_lookup_eq_some]
    exact List.pairwise_map.mp (by rw [List.map_reverse]; exact List.nodup_reverse.mpr hunits)
  have hunits' := (hperm.map Prod.fst).nodup_iff.mpr hunits
  funext unit id
  rw [under, under]
  congr 3
  refine Option.ext fun pushes => ?_
  rw [hlookup hunits', hlookup hunits, hperm.mem_iff]

end Log

/-! ## Findings and units with nothing in them -/

theorem Findings.size_eq_zero_iff (all : Findings) :
    all.size = 0 ↔ ∀ group ∈ all.groups, group.2 = [] := by
  have hfrom : ∀ (groups : List (Nat × List Finding)) (n : Nat),
      groups.foldl (fun n group => n + group.2.length) n = 0 ↔
        n = 0 ∧ ∀ group ∈ groups, group.2 = [] := by
    intro groups
    induction groups with
    | nil => simp
    | cons group groups ih =>
      intro n
      rw [List.foldl_cons, ih, Nat.add_eq_zero_iff, List.length_eq_zero_iff, List.forall_mem_cons,
        and_assoc]
  rw [size, hfrom, and_iff_right rfl]

theorem Findings.Grouped.isEmpty_eq_false_iff {all : Findings} (h : all.Grouped) :
    all.isEmpty = false ↔ ∃ id, all.get id ≠ [] := by
  rw [isEmpty, beq_eq_false_iff_ne, ne_eq, size_eq_zero_iff]
  constructor
  · intro hne
    by_contra hno
    refine hne ?_
    rintro ⟨id, fs⟩ hgroup
    obtain ⟨hfull, rfl⟩ := h.mem_groups_iff.mp hgroup
    exact absurd ⟨id, hfull⟩ hno
  · rintro ⟨id, hid⟩ hall
    exact hid (hall _ (h.mem_groups_iff.mpr ⟨hid, rfl⟩))

namespace Report

/-! ## What a section shows -/

/-- Units, each with the numbers and the findings under them. -/
abbrev Layout := List (String × List (Nat × List Finding))

def Layout.lines (heading : Nat → Heading) (shown : Layout) : List String :=
  shown.flatMap fun entry =>
    s!"+ {entry.1} ----------" ::
      entry.2.flatMap fun group => Block.lines ⟨entry.1, heading group.1, group.2⟩

/-- All findings that are shown below the unit and, under it, below the number. -/
def Layout.below (shown : Layout) (unit : String) (id : Nat) : List Finding :=
  (shown.filter fun entry => decide (entry.1 = unit)).flatMap fun entry =>
    (entry.2.filter fun group => decide (group.1 = id)).flatMap Prod.snd

/-- Whether `a` stands before `b` in the order `le`, or beside it and before it in the order of
names. -/
def Before (le : String → String → Bool) (a b : String) : Prop :=
  le a b = true ∧ (le b a = true → a < b)

/-- The layout shows what is `under` each unit and number, each finding once and in its place. -/
structure Shows (le : String → String → Bool) (under : String → Nat → List Finding)
    (shown : Layout) : Prop where
  units_before : shown.Pairwise fun a b => Before le a.1 b.1
  mem_units_iff : ∀ unit, (∃ groups, (unit, groups) ∈ shown) ↔ ∃ id, under unit id ≠ []
  ids_ascend : ∀ entry ∈ shown, entry.2.Pairwise fun a b => a.1 < b.1
  mem_groups_iff : ∀ entry ∈ shown, ∀ id fs,
    (id, fs) ∈ entry.2 ↔ fs ≠ [] ∧ under entry.1 id = fs
  below_eq : ∀ unit id, shown.below unit id = under unit id

section

variable {le : String → String → Bool}
  (htrans : ∀ a b c, le a b = true → le b c = true → le a c = true)
  (htotal : ∀ a b, le a b = false → le b a = true)

theorem Before.ne {a b : String} (h : Before le a b) : a ≠ b := by
  rintro rfl
  exact String.lt_irrefl a (h.2 h.1)

theorem shows_of {under : String → Nat → List Finding} {shown : Layout}
    (hunits : shown.Pairwise fun a b => Before le a.1 b.1)
    (hmem : ∀ unit, (∃ groups, (unit, groups) ∈ shown) ↔ ∃ id, under unit id ≠ [])
    (hids : ∀ entry ∈ shown, entry.2.Pairwise fun a b => a.1 < b.1)
    (hgroups : ∀ entry ∈ shown, ∀ id fs,
      (id, fs) ∈ entry.2 ↔ fs ≠ [] ∧ under entry.1 id = fs) : Shows le under shown where
  units_before := hunits
  mem_units_iff := hmem
  ids_ascend := hids
  mem_groups_iff := hgroups
  below_eq unit id := by
    by_cases hunit : ∃ groups, (unit, groups) ∈ shown
    · obtain ⟨groups, hentry⟩ := hunit
      have hnodup : (shown.map Prod.fst).Nodup :=
        List.pairwise_map.mpr (hunits.imp Before.ne)
      have hnodup' : (groups.map Prod.fst).Nodup :=
        List.pairwise_map.mpr ((hids _ hentry).imp Nat.ne_of_lt)
      rw [Layout.below, filter_key_eq_singleton Prod.fst hnodup hentry, List.flatMap_singleton]
      by_cases hid : under unit id = []
      · have hnone : groups.filter (fun group => decide (group.1 = id)) = [] := by
          rw [List.filter_eq_nil_iff]
          rintro ⟨n, fs⟩ hgroup hn
          obtain rfl := of_decide_eq_true hn
          obtain ⟨hfull, rfl⟩ := (hgroups _ hentry _ _).mp hgroup
          exact hfull hid
        rw [hnone, hid, List.flatMap_nil]
      · have hgroup := (hgroups _ hentry id _).mpr ⟨hid, rfl⟩
        rw [filter_key_eq_singleton Prod.fst hnodup' hgroup, List.flatMap_singleton]
    · have hnone : shown.filter (fun entry => decide (entry.1 = unit)) = [] := by
        rw [List.filter_eq_nil_iff]
        rintro ⟨other, groups⟩ hentry hother
        obtain rfl := of_decide_eq_true hother
        exact hunit ⟨groups, hentry⟩
      rw [Layout.below, hnone, List.flatMap_nil]
      by_contra hne
      exact hunit ((hmem unit).mpr ⟨id, Ne.symm hne⟩)

include htrans in
theorem Before.trans {a b c : String} (hab : Before le a b) (hbc : Before le b c) :
    Before le a c := by
  refine ⟨htrans a b c hab.1 hbc.1, fun hca => ?_⟩
  have hba := hab.2 (htrans b c a hbc.1 hca)
  have hcb := hbc.2 (htrans c a b hca hab.1)
  exact String.lt_trans hba hcb

include htrans in
/-- There is one layout only that shows the same. -/
theorem Shows.unique {under : String → Nat → List Finding} {shown other : Layout}
    (h : Shows le under shown) (hother : Shows le under other) : shown = other := by
  -- What stands under a unit is settled by what came in for it.
  have hsub : ∀ {shown other : Layout}, Shows le under shown → Shows le under other →
      ∀ entry ∈ shown, entry ∈ other := by
    rintro shown other h hother ⟨unit, groups⟩ hentry
    obtain ⟨groups', hentry'⟩ := (hother.mem_units_iff unit).mpr
      ((h.mem_units_iff unit).mp ⟨groups, hentry⟩)
    have hgroups : groups = groups' := by
      refine eq_of_pairwise_of_mem_iff ?_ ?_ (h.ids_ascend _ hentry)
        (hother.ids_ascend _ hentry') ?_
      · exact fun a => Nat.lt_irrefl a.1
      · exact fun _ _ _ => Nat.lt_trans
      · rintro ⟨id, fs⟩
        rw [h.mem_groups_iff _ hentry, hother.mem_groups_iff _ hentry']
    rwa [hgroups]
  refine eq_of_pairwise_of_mem_iff ?_ ?_ h.units_before hother.units_before ?_
  · exact fun a h => h.ne rfl
  · exact fun _ _ _ => Before.trans htrans
  · exact fun entry => ⟨hsub h hother entry, hsub hother h entry⟩

include htrans htotal in
theorem shows_unitsInOrder {units : UnitMap Findings} (hunits : units.Sorted)
    (hgrouped : ∀ entry ∈ units.entries, entry.2.Grouped) :
    Shows le (fun unit id => ((units.get? unit).getD ∅).get id)
      ((unitsInOrder le units).map fun entry => (entry.1, entry.2.groups)) := by
  have hmem : ∀ {unit all}, (unit, all) ∈ unitsInOrder le units ↔
      units.get? unit = some all ∧ all.isEmpty = false := by
    intro unit all
    rw [unitsInOrder, (perm_sortBy _ _).mem_iff, List.mem_filter, hunits.mem_entries_iff,
      Bool.not_eq_true']
  have hall : ∀ {unit all}, units.get? unit = some all → all.Grouped :=
    fun hget => hgrouped _ (hunits.mem_entries_iff.mpr hget)
  refine shows_of ?_ ?_ ?_ ?_
  · have hsorted := pairwise_sortBy_of_pairwise (fun a b : String × Findings => le a.1 b.1)
      (fun a b c => htrans a.1 b.1 c.1) (fun a b => htotal a.1 b.1)
      (List.Pairwise.filter (fun entry => !entry.2.isEmpty) hunits)
    exact List.pairwise_map.mpr hsorted
  · intro unit
    constructor
    · rintro ⟨groups, hentry⟩
      obtain ⟨⟨other, all⟩, hother, heq⟩ := List.mem_map.mp hentry
      obtain ⟨hget, hempty⟩ := hmem.mp hother
      obtain rfl : other = unit := congrArg Prod.fst heq
      simpa only [hget, Option.getD_some] using (hall hget).isEmpty_eq_false_iff.mp hempty
    · rintro ⟨id, hid⟩
      cases hget : units.get? unit with
      | none => exact absurd (by rw [hget]; rfl) hid
      | some all =>
        rw [hget, Option.getD_some] at hid
        have hempty := (hall hget).isEmpty_eq_false_iff.mpr ⟨id, hid⟩
        exact ⟨all.groups, List.mem_map.mpr ⟨(unit, all), hmem.mpr ⟨hget, hempty⟩, rfl⟩⟩
  · intro entry hentry
    obtain ⟨⟨unit, all⟩, hunit, rfl⟩ := List.mem_map.mp hentry
    exact (hall (hmem.mp hunit).1).ascending
  · intro entry hentry id fs
    obtain ⟨⟨unit, all⟩, hunit, rfl⟩ := List.mem_map.mp hentry
    have hget := (hmem.mp hunit).1
    rw [hget, Option.getD_some]
    exact (hall hget).mem_groups_iff

end

theorem sectionLines_eq (le : String → String → Bool) (heading : Nat → Heading)
    {units : UnitMap Findings} (hgrouped : ∀ entry ∈ units.entries, entry.2.Grouped) :
    sectionLines le units heading =
      Layout.lines heading ((unitsInOrder le units).map fun entry => (entry.1, entry.2.groups)) := by
  rw [sectionLines, Layout.lines, List.flatMap_map]
  refine List.flatMap_congr fun entry hentry => ?_
  have hmem := (List.mem_filter.mp ((perm_sortBy _ _).mem_iff.mp hentry)).1
  have hfull : entry.2.groups.filter (fun group => !group.2.isEmpty) = entry.2.groups := by
    rw [List.filter_eq_self]
    intro group hgroup
    simpa using (hgrouped entry hmem).nonempty group hgroup
  rw [unitLines_eq, unitBlocks, hfull, List.flatMap_map]

/-! ## Reports of what came in -/

/-- A section of what came in has one layout, whatever the order in which units and numbers came. -/
theorem exists_shows {le : String → String → Bool}
    (htrans : ∀ a b c, le a b = true → le b c = true → le a c = true)
    (htotal : ∀ a b, le a b = false → le b a = true) (heading : Nat → Heading) (log : Log) :
    ∃ shown, Shows le log.under shown ∧ ∀ other : Log, other.under = log.under →
      sectionLines le other.findings heading = Layout.lines heading shown := by
  have hshows : ∀ log : Log, ∃ shown, Shows le log.under shown ∧
      sectionLines le log.findings heading = Layout.lines heading shown := by
    intro log
    have hunder : log.under = fun unit id => ((log.findings.get? unit).getD ∅).get id := by
      funext unit id
      rw [log.get?_findings, Log.under]
      cases log.reverse.lookup unit with
      | none => rfl
      | some pushes => exact (Log.get_gathered pushes id).symm
    have hgrouped := log.grouped_findings
    exact ⟨_, hunder ▸ shows_unitsInOrder htrans htotal log.sorted_findings hgrouped,
      sectionLines_eq le heading hgrouped⟩
  obtain ⟨shown, hshown, -⟩ := hshows log
  refine ⟨shown, hshown, fun other hunder => ?_⟩
  obtain ⟨shown', hshown', hlines⟩ := hshows other
  rw [hlines, hshown.unique htrans (hunder ▸ hshown')]

def shownLines (book : Rulebook) (rules flows : Layout) (ruleMicros flowMicros : Nat) :
    List String :=
  rules.lines (ruleHeading book) ++ s!"Syntax Ran in {ruleMicros / 1000}ms" ::
    (flows.lines flowHeading ++ [s!"Flow Ran in {flowMicros / 1000}ms"])

/-- The text of a report shows all that came in for the rules and then all that came in for the flow
checks: the units with findings in the given order, with ties in the order of their names, under
each of them its numbers in ascending order, and under each number its findings as they came. The
order in which units and numbers came does not matter. -/
theorem textBy_shows {le : String → String → Bool}
    (htrans : ∀ a b c, le a b = true → le b c = true → le a c = true)
    (htotal : ∀ a b, le a b = false → le b a = true) (book : Rulebook) (rules flows : Log)
    (ruleMicros flowMicros : Nat) :
    ∃ ruleShown flowShown, Shows le rules.under ruleShown ∧ Shows le flows.under flowShown ∧
      ∀ rules' flows' : Log, rules'.under = rules.under → flows'.under = flows.under →
        let report : Report := ⟨book, rules'.findings, ruleMicros, flows'.findings, flowMicros⟩
        let lines := shownLines book ruleShown flowShown ruleMicros flowMicros
        report.linesBy le = lines ∧ report.textBy le = String.join (lines.map (· ++ "\n")) ∧
          (le = Natural.le → report.text = String.join (lines.map (· ++ "\n"))) := by
  obtain ⟨ruleShown, hrules, hruleLines⟩ := exists_shows htrans htotal (ruleHeading book) rules
  obtain ⟨flowShown, hflows, hflowLines⟩ := exists_shows htrans htotal flowHeading flows
  refine ⟨ruleShown, flowShown, hrules, hflows, ?_⟩
  intro rules' flows' hr hf report lines
  have hlines : report.linesBy le = lines := by
    rw [linesBy, hruleLines rules' hr, hflowLines flows' hf]
    rfl
  refine ⟨hlines, ?_, ?_⟩
  · rw [textBy, hlines]
  · rintro rfl
    rw [text, textBy, hlines]

def threeUnits : Log := [
  ("unit10.cpp", [(1, .warningAt 2 0 "late")]), ("clean.cpp", []),
  ("unit2.cpp", [(4, .warningAt 9 4 "auto"), (1, .warningAt 2 0 "early"), (1, .warningAt 7 1 "again")])]

def oneRead : Log := [("unit2.cpp", [(2, .warningAt 4 1 "unset")])]

theorem textBy_shows_threeUnits :
    ∃ ruleShown flowShown, Shows Natural.le threeUnits.under ruleShown ∧
      Shows Natural.le oneRead.under flowShown ∧
      ∀ log : Log, log.Perm threeUnits →
        text ⟨.ofRules [⟨0, .noGoto, "NoGoto", .all, none⟩], log.findings, 12000,
          oneRead.findings, 3000⟩ = String.join [
        "+ unit2.cpp ----------\n",
        "  NoGoto -- `goto` must not be used in Function\n", "    L3, Character: 1: early\n",
        "    L8, Character: 2: again\n", "  Rule 4 -- \n", "    L10, Character: 5: auto\n",
        "+ unit10.cpp ----------\n",
        "  NoGoto -- `goto` must not be used in Function\n", "    L3, Character: 1: late\n",
        "Syntax Ran in 12ms\n",
        "+ unit2.cpp ----------\n",
        "  Uninitialized -- Primitive variables must be initialized before use\n",
        "    L5, Character: 2: unset\n",
        "Flow Ran in 3ms\n"] := by
  obtain ⟨ruleShown, flowShown, hrules, hflows, htext⟩ :=
    @textBy_shows Natural.le (fun _ _ _ => Natural.le_trans) (fun _ _ => Natural.le_total)
      (.ofRules [⟨0, .noGoto, "NoGoto", .all, none⟩]) threeUnits oneRead 12000 3000
  refine ⟨ruleShown, flowShown, hrules, hflows, fun log hperm => ?_⟩
  have hunder := Log.under_eq_of_perm (by decide) hperm
  rw [(htext log oneRead hunder rfl).2.2 rfl, ← (htext threeUnits oneRead rfl rfl).2.2 rfl]
  decide +kernel

end Report

end ScopeLint
