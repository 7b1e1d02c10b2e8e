import ScopeLint.Proofs.Finding
import ScopeLint.Proofs.Outline.OfSorted
import ScopeLint.Rule.Check

/-!
# Rules do not interfere

Under each number there is what the rules of that number find, one rule after the other. So rules
with numbers of their own find together what they find alone, in whatever order they come.
-/

namespace ScopeLint.Rulebook

variable {rules : List Rule} {r : Rule} {n : Nat} {o : Outline}

/-! ## Under one number -/

theorem grouped_foldl_extend (rules : List Rule) (o : Outline) {all : Findings}
    (h : all.Grouped) : (rules.foldl (fun all r => all.extend r.id (r.check o)) all).Grouped := by
  induction rules generalizing all with
  | nil => exact h
  | cons r rest ih => exact ih (h.extend r.id (r.check o))

theorem get_foldl_extend (rules : List Rule) (o : Outline) (n : Nat) {all : Findings}
    (h : all.Grouped) :
    (rules.foldl (fun all r => all.extend r.id (r.check o)) all).get n =
      all.get n ++ (rules.filter fun r => decide (r.id = n)).flatMap (·.check o) := by
  induction rules generalizing all with
  | nil => simp
  | cons r rest ih =>
    rw [List.foldl_cons, ih (h.extend r.id (r.check o)), h.get_extend, List.append_assoc]
    by_cases hr : r.id = n
    · rw [if_pos hr, List.filter_cons_of_pos (by simpa using hr), List.flatMap_cons]
    · rw [if_neg hr, List.filter_cons_of_neg (by simpa using hr), List.nil_append]

theorem grouped_check (book : Rulebook) (o : Outline) : (book.check o).Grouped :=
  grouped_foldl_extend book.rules o Findings.grouped_empty

theorem get_check (book : Rulebook) (o : Outline) (n : Nat) :
    (book.check o).get n =
      (book.rules.filter fun r => decide (r.id = n)).flatMap (·.check o) :=
  get_foldl_extend book.rules o n Findings.grouped_empty

theorem mem_check_iff {book : Rulebook} {f : Finding} :
    f ∈ book.check o ↔ ∃ r ∈ book.rules, f ∈ r.check o := by
  simp only [(grouped_check book o).mem_iff, get_check, List.mem_flatMap, List.mem_filter,
    decide_eq_true_eq]
  constructor
  · rintro ⟨n, r, ⟨hr, -⟩, hf⟩
    exact ⟨r, hr, hf⟩
  · rintro ⟨r, hr, hf⟩
    exact ⟨r.id, r, ⟨hr, rfl⟩, hf⟩

/-! ## Numbers of their own -/

theorem get_check_of_mem (hids : (rules.map (·.id)).Nodup) (hr : r ∈ rules) :
    (check ⟨rules⟩ o).get r.id = r.check o := by
  rw [get_check, filter_key_eq_singleton (·.id) hids hr, List.flatMap_singleton]

theorem get_check_of_notMem (h : n ∉ rules.map (·.id)) : (check ⟨rules⟩ o).get n = [] := by
  have hnone : rules.filter (fun r => decide (r.id = n)) = [] := by
    rw [List.filter_eq_nil_iff]
    intro r hr hid
    exact h (List.mem_map.mpr ⟨r, hr, of_decide_eq_true hid⟩)
  rw [get_check, hnone, List.flatMap_nil]

/-- In whatever order rules with numbers of their own come, they find the same: under the number of
each rule what it finds alone, in the same order, and under no other number anything. -/
theorem check_eq_of_perm {rules others : List Rule} (hids : (rules.map (·.id)).Nodup)
    (hperm : others.Perm rules) (o : Outline) :
    check ⟨others⟩ o = check ⟨rules⟩ o ∧
      (∀ r ∈ rules, (check ⟨rules⟩ o).get r.id = (check ⟨[r]⟩ o).get r.id ∧
        (check ⟨[r]⟩ o).get r.id = r.check o) ∧
      ∀ group ∈ (check ⟨rules⟩ o).groups, ∃ r ∈ rules, group = (r.id, r.check o) := by
  have hids' : (others.map (·.id)).Nodup := (hperm.map _).nodup_iff.mpr hids
  refine ⟨?_, ?_, ?_⟩
  · refine (grouped_check ⟨others⟩ o).ext (grouped_check ⟨rules⟩ o) fun n => ?_
    by_cases hn : n ∈ rules.map (·.id)
    · obtain ⟨r, hr, rfl⟩ := List.mem_map.mp hn
      rw [get_check_of_mem hids hr, get_check_of_mem hids' (hperm.mem_iff.mpr hr)]
    · rw [get_check_of_notMem hn, get_check_of_notMem]
      rwa [(hperm.map _).mem_iff]
  · intro r hr
    have halone : (check ⟨[r]⟩ o).get r.id = r.check o :=
      get_check_of_mem (List.nodup_singleton _) List.mem_cons_self
    exact ⟨by rw [get_check_of_mem hids hr, halone], halone⟩
  · rintro ⟨n, fs⟩ hgroup
    obtain ⟨hne, rfl⟩ := (grouped_check ⟨rules⟩ o).mem_groups_iff.mp hgroup
    by_cases hn : n ∈ rules.map (·.id)
    · obtain ⟨r, hr, rfl⟩ := List.mem_map.mp hn
      exact ⟨r, hr, by rw [get_check_of_mem hids hr]⟩
    · exact absurd (get_check_of_notMem hn) hne

def oneMacro : Source := ⟨"unit.cpp", ["#define LIMIT 8".toList]⟩

def macroRules : List Rule :=
  [⟨7, .noDefine, "NoDefine", .all, none⟩, ⟨4, .noGoto, "NoGoto", .all, none⟩,
    ⟨2, .maxCharactersPerLine, "MaxCharactersPerLine", .all, some "9"⟩]

theorem check_eq_of_perm_macroRules :
    ∃ o, Outline.ofSource oneMacro = .ok o ∧
      (check ⟨macroRules⟩ o).groups =
        [(2, [.warningAt 0 9 "Line is 15 characters long, maximum is 9"]),
          (7, [.warningAt 0 0 "Macro `LIMIT` is defined"])] ∧
      check ⟨macroRules.reverse⟩ o = check ⟨macroRules⟩ o ∧
      (∀ r ∈ macroRules, (check ⟨macroRules⟩ o).get r.id = (check ⟨[r]⟩ o).get r.id ∧
        (check ⟨[r]⟩ o).get r.id = r.check o) ∧
      ∀ group ∈ (check ⟨macroRules⟩ o).groups, ∃ r ∈ macroRules, group = (r.id, r.check o) := by
  obtain ⟨o, h, hgroups⟩ : ∃ o, Outline.ofSource oneMacro = .ok o ∧
      (check ⟨macroRules⟩ o).groups =
        [(2, [.warningAt 0 9 "Line is 15 characters long, maximum is 9"]),
          (7, [.warningAt 0 0 "Macro `LIMIT` is defined"])] :=
    Outline.exists_ofSource (by decide +kernel)
  exact ⟨o, h, hgroups, check_eq_of_perm (by decide) (List.reverse_perm macroRules) o⟩

end ScopeLint.Rulebook
