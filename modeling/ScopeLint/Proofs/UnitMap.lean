import Mathlib.Data.String.Basic
import ScopeLint.Proofs.Sort
import ScopeLint.UnitMap

/-!
# Maps by unit are what they answer

The entries of a map are sorted by name, without repetition. So a map is known by its answers, and
values for different units may come in in any order.
-/

namespace ScopeLint.UnitMap

variable {α : Type}

def Sorted (m : UnitMap α) : Prop := m.entries.Pairwise fun a b => a.1 < b.1

theorem sorted_empty : Sorted (∅ : UnitMap α) := .nil

theorem mem_insertInto {name : String} {value : α} {entries : List (String × α)}
    {entry : String × α} (h : entry ∈ insertInto name value entries) :
    entry = (name, value) ∨ entry ∈ entries := by
  fun_induction insertInto name value entries with
  | case1 => simpa using h
  | case2 => simpa using h
  | case3 =>
    rcases List.mem_cons.mp h with rfl | h
    · exact .inl rfl
    · exact .inr (List.mem_cons_of_mem _ h)
  | case4 n v rest _ _ ih =>
    rcases List.mem_cons.mp h with rfl | h
    · exact .inr List.mem_cons_self
    · exact (ih h).imp_right (List.mem_cons_of_mem _)

theorem pairwise_insertInto {name : String} {value : α} {entries : List (String × α)}
    (h : entries.Pairwise fun a b => a.1 < b.1) :
    (insertInto name value entries).Pairwise fun a b => a.1 < b.1 := by
  fun_induction insertInto name value entries with
  | case1 => exact List.pairwise_singleton _ _
  | case2 n v rest hlt =>
    refine .cons ?_ h
    intro entry hentry
    rcases List.mem_cons.mp hentry with rfl | hentry
    · exact hlt
    · exact String.lt_trans hlt ((List.pairwise_cons.mp h).1 entry hentry)
  | case3 v rest => exact .cons (List.pairwise_cons.mp h).1 (List.pairwise_cons.mp h).2
  | case4 n v rest hlt hne ih =>
    rw [List.pairwise_cons] at h
    refine .cons ?_ (ih h.2)
    intro entry hentry
    rcases mem_insertInto hentry with rfl | hentry
    · exact lt_of_le_of_ne (not_lt.mp hlt) (Ne.symm hne)
    · exact h.1 entry hentry

theorem Sorted.insert {m : UnitMap α} (h : m.Sorted) (name : String) (value : α) :
    (m.insert name value).Sorted := pairwise_insertInto h

theorem Sorted.mem_entries_iff {m : UnitMap α} (h : m.Sorted) {name : String} {value : α} :
    (name, value) ∈ m.entries ↔ m.get? name = some value :=
  mem_iff_lookup_eq_some (h.imp String.ne_of_lt)

theorem Sorted.ext {m other : UnitMap α} (hm : m.Sorted) (hother : other.Sorted)
    (h : ∀ name, m.get? name = other.get? name) : m = other := by
  have hentries : m.entries = other.entries := by
    refine eq_of_pairwise_of_mem_iff ?_ ?_ hm hother ?_
    · exact fun a => String.lt_irrefl a.1
    · exact fun _ _ _ => String.lt_trans
    · rintro ⟨name, value⟩
      rw [hm.mem_entries_iff, hother.mem_entries_iff, h]
  cases m
  cases other
  exact congrArg UnitMap.mk hentries

/-! ## Values that are worked out -/

variable {β : Type}

theorem Sorted.map {m : UnitMap α} (h : m.Sorted) (f : α → β) : (m.map f).Sorted :=
  List.pairwise_map.mpr h

end ScopeLint.UnitMap
