import Mathlib.Data.List.Induction
import ScopeLint.Outline.Nesting
import ScopeLint.Proofs.Kind
import ScopeLint.Proofs.Outline.WellNested
import ScopeLint.Rule.Check
import ScopeLint.RuleFile

/-!
# Rules at odds

A rulebook takes in every rule that is at odds with none of those it has, and no other. However it
has come about, no scope is asked for opposite things.
-/

namespace ScopeLint

/-! ## Conflicts -/

theorem RuleKind.conflictsWith_comm (a b : RuleKind) :
    a.conflictsWith b = b.conflictsWith a := Bool.or_comm _ _

theorem Rule.conflictsWith_comm (a b : Rule) : a.conflictsWith b = b.conflictsWith a := by
  unfold conflictsWith
  rw [RuleKind.conflictsWith_comm, KindSet.meets_comm]

theorem Rule.not_conflictsWith_self (r : Rule) : r.conflictsWith r = false := by
  unfold conflictsWith
  cases r.kind <;> rfl

namespace Rulebook

variable {book : Rulebook} {r : Rule}

/-- No two rules of the rulebook are at odds. -/
def Peaceful (book : Rulebook) : Prop :=
  ∀ r ∈ book.rules, ∀ t ∈ book.rules, r.conflictsWith t = false

theorem peaceful_empty : Peaceful ∅ := by
  intro r hr
  cases hr

/-! ## Taking rules in -/

theorem push?_eq_none_iff :
    book.push? r = none ↔ ∃ t ∈ book.rules, r.conflictsWith t = true := by
  unfold push?
  rw [← List.any_eq_true]
  split <;> simp_all

theorem push_of_conflict (h : ∃ t ∈ book.rules, r.conflictsWith t = true) :
    book.push r = book := by
  rw [push, push?_eq_none_iff.mpr h, Option.getD_none]

theorem push_of_no_conflict (h : ∀ t ∈ book.rules, r.conflictsWith t = false) :
    (book.push r).rules = book.rules ++ [{ r with id := book.rules.length + 1 }] := by
  have hany : ¬book.rules.any r.conflictsWith = true := by
    simpa using h
  rw [push, push?, if_neg hany, Option.getD_some]

theorem Peaceful.push (h : book.Peaceful) (r : Rule) : (book.push r).Peaceful := by
  by_cases hr : ∃ t ∈ book.rules, r.conflictsWith t = true
  · rw [push_of_conflict hr]
    exact h
  · have hfree : ∀ t ∈ book.rules, r.conflictsWith t = false := by
      simpa using hr
    unfold Peaceful
    rw [push_of_no_conflict hfree]
    intro a ha b hb
    rw [List.mem_append, List.mem_singleton] at ha hb
    -- The number of a rule has no part in conflicts.
    rcases ha with ha | rfl <;> rcases hb with hb | rfl
    · exact h a ha b hb
    · rw [Rule.conflictsWith_comm]
      exact hfree a ha
    · exact hfree b hb
    · exact r.not_conflictsWith_self

/-! ## Rules of a file -/

/-- From the entries, in order, those are kept that are at odds with none kept before them. -/
inductive Keeps : List Rule → List Rule → Prop where
  | nil : Keeps [] []
  | accept {entries kept : List Rule} {r : Rule} (front : Keeps entries kept)
    (hfree : ∀ t ∈ kept, r.conflictsWith t = false) : Keeps (entries ++ [r]) (kept ++ [r])
  | refuse {entries kept : List Rule} {r : Rule} (front : Keeps entries kept)
    (hodds : ∃ t ∈ kept, r.conflictsWith t = true) : Keeps (entries ++ [r]) kept

def numbered (rules : List Rule) : List Rule :=
  rules.mapIdx fun i r => { r with id := i + 1 }

theorem numbered_concat (rules : List Rule) (r : Rule) :
    numbered (rules ++ [r]) = numbered rules ++ [{ r with id := (numbered rules).length + 1 }] := by
  simp [numbered, List.mapIdx_append]

theorem forall_mem_numbered {rules : List Rule} {P : Rule → Prop}
    (hP : ∀ (r : Rule) (id : Nat), P { r with id := id } ↔ P r) :
    (∀ t ∈ numbered rules, P t) ↔ ∀ t ∈ rules, P t := by
  induction rules using List.reverseRecOn with
  | nil => simp [numbered]
  | append_singleton rules r ih =>
    rw [numbered_concat]
    simp only [List.forall_mem_append, List.forall_mem_singleton, hP, ih]

theorem exists_keeps_ofRules (entries : List Rule) :
    ∃ kept, Keeps entries kept ∧ (ofRules entries).rules = numbered kept := by
  induction entries using List.reverseRecOn with
  | nil => exact ⟨[], .nil, rfl⟩
  | append_singleton entries r ih =>
    obtain ⟨kept, hkept, hrules⟩ := ih
    have hlast : ofRules (entries ++ [r]) = (ofRules entries).push r := List.foldl_append
    have hsame : (∀ t ∈ (ofRules entries).rules, r.conflictsWith t = false) ↔
        ∀ t ∈ kept, r.conflictsWith t = false := by
      rw [hrules]
      exact forall_mem_numbered fun _ _ => Iff.rfl
    by_cases hfree : ∀ t ∈ kept, r.conflictsWith t = false
    · refine ⟨kept ++ [r], hkept.accept hfree, ?_⟩
      rw [hlast, push_of_no_conflict (hsame.mpr hfree), hrules, numbered_concat]
    · refine ⟨kept, hkept.refuse (by simpa using hfree), ?_⟩
      rw [hlast, push_of_conflict, hrules]
      simpa using mt hsame.mp hfree

theorem peaceful_ofRules (entries : List Rule) : (ofRules entries).Peaceful := by
  induction entries using List.reverseRecOn with
  | nil => exact peaceful_empty
  | append_singleton entries r ih =>
    have hlast : ofRules (entries ++ [r]) = (ofRules entries).push r := List.foldl_append
    rw [hlast]
    exact ih.push r

/-! ## Dropping duplicates -/

theorem deduplicated_sublist (kept rules : List Rule) :
    (deduplicated kept rules).Sublist (kept ++ rules) := by
  induction rules generalizing kept with
  | nil =>
    rw [List.append_nil]
    exact List.Sublist.refl kept
  | cons r rest ih =>
    rw [deduplicated]
    split
    · exact (ih kept).trans ((List.sublist_cons_self r rest).append_left kept)
    · have hrest := ih (kept ++ [r])
      rwa [List.append_assoc] at hrest

theorem rules_deduplicate_sublist (book : Rulebook) :
    book.deduplicate.rules.Sublist book.rules := deduplicated_sublist [] book.rules

theorem mem_of_mem_deduplicate (h : r ∈ book.deduplicate.rules) : r ∈ book.rules :=
  (rules_deduplicate_sublist book).mem h

theorem Peaceful.deduplicate (h : book.Peaceful) : book.deduplicate.Peaceful :=
  fun r hr t ht => h r (mem_of_mem_deduplicate hr) t (mem_of_mem_deduplicate ht)

/-! ## Changes -/

inductive Change where
  | push (r : Rule)
  /-- A text that is no rule file changes nothing. -/
  | load (text : List Char)
  | deduplicate

def apply (book : Rulebook) : Change → Rulebook
  | .push r => book.push r
  | .load text => (RuleFile.rulebook? text).getD book
  | .deduplicate => book.deduplicate

def after (changes : List Change) : Rulebook := changes.foldl apply ∅

theorem after_concat (changes : List Change) (c : Change) :
    after (changes ++ [c]) = (after changes).apply c := List.foldl_append

theorem after_induction {P : Rulebook → Prop} (hempty : P ∅)
    (happly : ∀ book c, P book → P (book.apply c)) (changes : List Change) : P (after changes) := by
  induction changes using List.reverseRecOn with
  | nil => exact hempty
  | append_singleton changes c ih =>
    rw [after_concat]
    exact happly _ c ih

theorem Peaceful.apply (h : book.Peaceful) (c : Change) : (book.apply c).Peaceful := by
  cases c with
  | push r => exact h.push r
  | load text =>
    rw [Rulebook.apply, RuleFile.rulebook?]
    cases RuleFile.rules? text with
    | none => exact h
    | some entries => exact peaceful_ofRules entries
  | deduplicate => exact h.deduplicate

theorem peaceful_after (changes : List Change) : (after changes).Peaceful :=
  after_induction peaceful_empty (fun _ c h => h.apply c) changes

end Rulebook

/-! ## Scopes -/

theorem Outline.isUnresolved_of_mem_preorder {s : Source} {o : Outline}
    (h : Outline.ofSource s = .ok o) {id : ScopeId} (hid : id ∈ o.preorder) :
    (o.get id).kind.isUnresolved = false := by
  obtain ⟨regions, -, rfl⟩ := Region.exists_of_map_eq_ok h
  rw [Kind.isUnresolved_eq_false_iff]
  apply kind_settled_ofSorted
  rcases List.mem_cons.mp hid with rfl | hid
  · rw [size_ofSorted]
    exact Nat.succ_pos _
  · exact ((isTree_ofSorted ..).mem_descendants_root_iff.mp hid).2

theorem Rule.meets_of_mem_scopesOf {s : Source} {o : Outline} (h : Outline.ofSource s = .ok o)
    {r t : Rule} {id : ScopeId} (hr : id ∈ o.scopesOf r.applicable)
    (ht : id ∈ o.scopesOf t.applicable) : r.appliedTo.meets t.appliedTo = true := by
  obtain ⟨hid, hrkind⟩ := List.mem_filter.mp hr
  have htkind := (List.mem_filter.mp ht).2
  have hsettled := Outline.isUnresolved_of_mem_preorder h hid
  exact KindSet.meets_mono (KindSet.includes_applicable (KindSet.all_includes_usual _) _)
    (KindSet.includes_applicable (KindSet.all_includes_usual _) _)
    (Kind.meets_of_isOf hsettled hrkind htkind)

theorem Rulebook.Peaceful.notMem_scopesOf {book : Rulebook} (hbook : book.Peaceful) {s : Source}
    {o : Outline} (h : Outline.ofSource s = .ok o) {r t : Rule} (hr : r ∈ book.rules)
    (ht : t ∈ book.rules) (hkinds : r.kind.conflictsWith t.kind = true) {id : ScopeId}
    (hid : id ∈ o.scopesOf r.applicable) : id ∉ o.scopesOf t.applicable := by
  intro hid'
  have hfree := hbook r hr t ht
  rw [Rule.conflictsWith, hkinds, Rule.meets_of_mem_scopesOf h hid hid'] at hfree
  cases hfree

/-- However a rulebook has come about, no two of its rules are at odds, it refuses a rule exactly if
one of them is at odds with it, a rule file gives it the entries that are at odds with no earlier
one that is kept, numbered from 1, and no scope of a unit is looked at by two rules of conflicting
kinds. -/
theorem Rulebook.atPeace_after (changes : List Change) :
    (after changes).Peaceful ∧
      (∀ r, (after changes).push? r = none ↔
        ∃ t ∈ (after changes).rules, r.conflictsWith t = true) ∧
      (∀ text entries, RuleFile.rules? text = some entries →
        ∃ kept, Keeps entries kept ∧
          (after (changes ++ [.load text])).rules = numbered kept) ∧
      ∀ s o, Outline.ofSource s = .ok o → ∀ r ∈ (after changes).rules,
        ∀ t ∈ (after changes).rules, r.kind.conflictsWith t.kind = true →
          ∀ id ∈ o.scopesOf r.applicable, id ∉ o.scopesOf t.applicable := by
  refine ⟨peaceful_after changes, fun r => push?_eq_none_iff, ?_, ?_⟩
  · intro text entries hentries
    obtain ⟨kept, hkept, hrules⟩ := exists_keeps_ofRules entries
    refine ⟨kept, hkept, ?_⟩
    rw [after_concat, Rulebook.apply, RuleFile.rulebook?, hentries, Option.map_some,
      Option.getD_some, hrules]
  · intro s o h r hr t ht hkinds id hid
    exact (peaceful_after changes).notMem_scopesOf h hr ht hkinds hid

end ScopeLint
