import ScopeLint.Proofs.Rulebook.Conflict

/-!
# Numbers of rules

A rule that is taken in gets the number behind the count of the rules there are, and keeps it when
duplicates are dropped. So a number can be given out that another rule still has: numbers stay
distinct exactly as long as each rule that is taken in finds its number free, as it does as long as
no duplicates have been dropped since the last rule file.
-/

namespace ScopeLint.Rulebook

variable {book : Rulebook} {r : Rule} {n : Nat} {changes : List Change}

def ids (book : Rulebook) : List Nat := book.rules.map (·.id)

def nextId (book : Rulebook) : Nat := book.rules.length + 1

theorem get?_eq_none_iff : book.get? n = none ↔ n ∉ book.ids := by
  simp [get?, ids]

/-! ## Taking a rule in -/

theorem rules_push_of_isSome (h : (book.push? r).isSome) :
    (book.push r).rules = book.rules ++ [{ r with id := book.nextId }] := by
  refine push_of_no_conflict fun t ht => ?_
  by_contra hodds
  rw [push?_eq_none_iff.mpr ⟨t, ht, by simpa using hodds⟩] at h
  cases h

theorem push_of_isNone (h : ¬(book.push? r).isSome) : book.push r = book := by
  rw [push, Option.not_isSome_iff_eq_none.mp h, Option.getD_none]

theorem ids_push (h : (book.push? r).isSome) : (book.push r).ids = book.ids ++ [book.nextId] := by
  rw [ids, rules_push_of_isSome h, List.map_append]
  rfl

theorem nodup_ids_push_iff (h : (book.push? r).isSome) :
    (book.push r).ids.Nodup ↔ book.ids.Nodup ∧ book.get? book.nextId = none := by
  rw [ids_push h, ← List.concat_eq_append, List.nodup_concat, get?_eq_none_iff, and_comm]

theorem get?_push (h : (book.push? r).isSome) :
    (book.push r).get? book.nextId =
      some ((book.get? book.nextId).getD { r with id := book.nextId }) := by
  rw [get?, rules_push_of_isSome h, List.find?_append, get?]
  cases book.rules.find? (·.id == book.nextId) <;> simp

/-! ## Rules of a file -/

theorem ids_numbered (rules : List Rule) : ids ⟨numbered rules⟩ = List.range' 1 rules.length := by
  induction rules using List.reverseRecOn with
  | nil => rfl
  | append_singleton rules r ih =>
    have hlength : (numbered rules).length = rules.length := List.length_mapIdx
    unfold ids at ih ⊢
    rw [numbered_concat, List.map_append, ih, List.length_append, List.length_singleton,
      List.range'_concat, hlength]
    simp [Nat.add_comm]

theorem ids_ofRules (entries : List Rule) :
    (ofRules entries).ids = List.range' 1 (ofRules entries).rules.length := by
  obtain ⟨kept, -, hrules⟩ := exists_keeps_ofRules entries
  have hids := ids_numbered kept
  unfold ids at hids ⊢
  rw [hrules, hids, numbered, List.length_mapIdx]

theorem nodup_ids_deduplicate (h : book.ids.Nodup) : book.deduplicate.ids.Nodup :=
  h.sublist ((rules_deduplicate_sublist book).map _)

/-! ## All changes -/

/-- Each rule that is taken in on the way finds its number free. -/
def FindsFree (changes : List Change) : Prop :=
  ∀ front r, front ++ [.push r] <+: changes → ((after front).push? r).isSome →
    (after front).get? (after front).nextId = none

theorem nodup_ids_after (h : FindsFree changes) {front : List Change} (hfront : front <+: changes) :
    (after front).ids.Nodup := by
  induction front using List.reverseRecOn with
  | nil => exact List.nodup_nil
  | append_singleton front c ih =>
    have hids := ih ((List.prefix_append front [c]).trans hfront)
    rw [after_concat]
    cases c with
    | push r =>
      rw [apply]
      by_cases hr : ((after front).push? r).isSome
      · exact (nodup_ids_push_iff hr).mpr ⟨hids, h front r hfront hr⟩
      · rwa [push_of_isNone hr]
    | load text =>
      rw [apply, RuleFile.rulebook?]
      cases RuleFile.rules? text with
      | none => exact hids
      | some entries =>
        have hall : (ofRules entries).ids.Nodup := by
          rw [ids_ofRules]
          exact List.nodup_range'
        exact hall
    | deduplicate => exact nodup_ids_deduplicate hids

theorem findsFree_of_nodup (h : ∀ front, front <+: changes → (after front).ids.Nodup) :
    FindsFree changes := by
  intro front r hfront hr
  have hids := h (front ++ [.push r]) hfront
  rw [after_concat] at hids
  exact ((nodup_ids_push_iff hr).mp hids).2

/-- Whether no duplicates have been dropped since the rulebook was empty or a file was taken, one
change later. -/
def isWhole : Bool → Change → Bool
  | whole, .push _ => whole
  | whole, .load text => whole || (RuleFile.rulebook? text).isSome
  | _, .deduplicate => false

theorem ids_after_of_isWhole (h : changes.foldl isWhole true = true) :
    (after changes).ids = List.range' 1 (after changes).rules.length := by
  induction changes using List.reverseRecOn with
  | nil => rfl
  | append_singleton changes c ih =>
    rw [List.foldl_append, List.foldl_cons, List.foldl_nil] at h
    rw [after_concat]
    cases c with
    | push r =>
      rw [apply]
      by_cases hr : ((after changes).push? r).isSome
      · rw [ids_push hr, rules_push_of_isSome hr, List.length_append, List.length_singleton, ih h,
          List.range'_concat, nextId, Nat.one_mul, Nat.add_comm 1]
      · rw [push_of_isNone hr]
        exact ih h
    | load text =>
      rw [isWhole, Bool.or_eq_true] at h
      rw [apply]
      unfold RuleFile.rulebook? at h ⊢
      cases hrules : RuleFile.rules? text with
      | none =>
        rw [hrules] at h
        exact ih (by simpa using h)
      | some entries => exact ids_ofRules entries
    | deduplicate => cases h

theorem get?_nextId_of_isWhole (h : changes.foldl isWhole true = true) :
    (after changes).get? (after changes).nextId = none := by
  rw [get?_eq_none_iff, ids_after_of_isWhole h, List.mem_range', nextId]
  omega

/-- The rules have distinct numbers all the way exactly if each rule that is taken in finds its
number free. A rule that is taken in is found under its number unless an earlier one is, so if the
number was free; and it is free if no duplicates have been dropped since the last rule file, as the
numbers are then those from 1 on. -/
theorem ids_after (changes : List Change) :
    ((∀ front, front <+: changes → (after front).ids.Nodup) ↔ FindsFree changes) ∧
      (∀ r book, (after changes).push? r = some book →
        book.get? (after changes).nextId =
          some (((after changes).get? (after changes).nextId).getD
            { r with id := (after changes).nextId })) ∧
      (changes.foldl isWhole true = true →
        (after changes).ids = List.range' 1 (after changes).rules.length ∧
          (after changes).get? (after changes).nextId = none) := by
  refine ⟨⟨findsFree_of_nodup, fun h _ => nodup_ids_after h⟩, ?_, ?_⟩
  · intro r book hbook
    have hpush : (after changes).push r = book := by
      rw [push, hbook, Option.getD_some]
    rw [← hpush]
    exact get?_push (by rw [hbook, Option.isSome_some])
  · intro h
    exact ⟨ids_after_of_isWhole h, get?_nextId_of_isWhole h⟩

def clashing : List Change := [
  .push ⟨0, .noGoto, "NoGoto", .all, none⟩, .push ⟨0, .noGoto, "NoGoto", .all, none⟩,
  .push ⟨0, .noGoto, "NoGoto", .functions, none⟩, .deduplicate,
  .push ⟨0, .noAuto, "NoAuto", .all, none⟩]

/-- Taken in after a duplicate was dropped, a rule gets a number that another one has, which is the
one found under it. -/
theorem ids_after_clashing :
    ¬(after clashing).ids.Nodup ∧ (after clashing).ids = [1, 3, 3] ∧
      (after clashing).rules.getLast? = some ⟨3, .noAuto, "NoAuto", .all, none⟩ ∧
      (after clashing).get? 3 = some ⟨3, .noGoto, "NoGoto", .functions, none⟩ := by
  decide

end ScopeLint.Rulebook
