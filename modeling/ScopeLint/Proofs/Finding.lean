import ScopeLint.Finding
import ScopeLint.Proofs.Sort

/-!
# Findings are what is found under each number

The numbers of the groups ascend and no group is empty. So findings are known by what there is under
each number, and to add to one number leaves the others as they are.
-/

namespace ScopeLint.Findings

variable {all other : Findings} {id n : Nat} {f : Finding} {groups : List (Nat × List Finding)}

instance : Membership Finding Findings := ⟨fun all f => ∃ group ∈ all.groups, f ∈ group.2⟩

instance (f : Finding) (all : Findings) : Decidable (f ∈ all) :=
  inferInstanceAs (Decidable (∃ group ∈ all.groups, f ∈ group.2))

/-- The numbers ascend, and there is a finding under each of them. -/
structure Grouped (all : Findings) : Prop where
  ascending : all.groups.Pairwise fun a b => a.1 < b.1
  nonempty : ∀ group ∈ all.groups, group.2 ≠ []

/-! ## One finding more -/

theorem mem_pushInto {group : Nat × List Finding} (h : group ∈ pushInto id f groups) :
    group ∈ groups ∨ group.1 = id ∧ group.2 ≠ [] := by
  fun_induction pushInto id f groups with
  | case1 =>
    rw [List.mem_singleton.mp h]
    exact .inr ⟨rfl, List.cons_ne_nil _ _⟩
  | case2 n fs rest =>
    rcases List.mem_cons.mp h with rfl | h
    · exact .inr ⟨rfl, List.cons_ne_nil _ _⟩
    · exact .inl h
  | case3 fs rest =>
    rcases List.mem_cons.mp h with rfl | h
    · exact .inr ⟨rfl, List.append_ne_nil_of_right_ne_nil _ (List.cons_ne_nil _ _)⟩
    · exact .inl (List.mem_cons_of_mem _ h)
  | case4 n fs rest _ _ ih =>
    rcases List.mem_cons.mp h with rfl | h
    · exact .inl List.mem_cons_self
    · exact (ih h).imp_left (List.mem_cons_of_mem _)

theorem pairwise_pushInto (h : groups.Pairwise fun a b => a.1 < b.1) :
    (pushInto id f groups).Pairwise fun a b => a.1 < b.1 := by
  fun_induction pushInto id f groups with
  | case1 => exact List.pairwise_singleton _ _
  | case2 n fs rest hlt =>
    refine .cons ?_ h
    intro group hgroup
    rcases List.mem_cons.mp hgroup with rfl | hgroup
    · exact hlt
    · exact Nat.lt_trans hlt ((List.pairwise_cons.mp h).1 group hgroup)
  | case3 fs rest => exact .cons (List.pairwise_cons.mp h).1 (List.pairwise_cons.mp h).2
  | case4 n fs rest hlt hne ih =>
    rw [List.pairwise_cons] at h
    refine .cons ?_ (ih h.2)
    intro group hgroup
    rcases mem_pushInto hgroup with hgroup | ⟨rfl, -⟩
    · exact h.1 group hgroup
    · exact Nat.lt_of_le_of_ne (Nat.not_lt.mp hlt) (Ne.symm hne)

theorem lookup_pushInto_of_ne (h : n ≠ id) :
    (pushInto id f groups).lookup n = groups.lookup n := by
  have hbeq : (n == id) = false := by simpa using h
  fun_induction pushInto id f groups with
  | case1 => rw [List.lookup_cons, hbeq]
  | case2 => rw [List.lookup_cons, hbeq]
  | case3 => rw [List.lookup_cons, List.lookup_cons, hbeq]
  | case4 m fs rest _ _ ih => rw [List.lookup_cons, List.lookup_cons, ih]

theorem lookup_eq_none_of_lt (h : ∀ group ∈ groups, id < group.1) : groups.lookup id = none := by
  rw [List.lookup_eq_none_iff]
  intro group hgroup
  simpa using Nat.ne_of_lt (h group hgroup)

theorem lookup_pushInto_self (h : groups.Pairwise fun a b => a.1 < b.1) :
    ((pushInto id f groups).lookup id).getD [] = (groups.lookup id).getD [] ++ [f] := by
  fun_induction pushInto id f groups with
  | case1 => simp
  | case2 n fs rest hlt =>
    have hnone : ((n, fs) :: rest).lookup id = none := by
      refine lookup_eq_none_of_lt ?_
      intro group hgroup
      rcases List.mem_cons.mp hgroup with rfl | hgroup
      · exact hlt
      · exact Nat.lt_trans hlt ((List.pairwise_cons.mp h).1 group hgroup)
    rw [hnone]
    simp
  | case3 => simp
  | case4 n fs rest _ hne ih =>
    have hbeq : (id == n) = false := by simpa using hne
    rw [List.lookup_cons, List.lookup_cons, hbeq]
    exact ih (List.pairwise_cons.mp h).2

/-! ## All findings -/

theorem grouped_empty : Grouped ∅ := ⟨.nil, fun _ h => by cases h⟩

theorem notMem_empty : f ∉ (∅ : Findings) := by
  rintro ⟨group, hgroup, -⟩
  cases hgroup

theorem Grouped.push (h : all.Grouped) (id : Nat) (f : Finding) : (all.push id f).Grouped where
  ascending := pairwise_pushInto h.ascending
  nonempty group hgroup := by
    rcases mem_pushInto hgroup with hgroup | ⟨-, hne⟩
    · exact h.nonempty group hgroup
    · exact hne

theorem Grouped.extend (h : all.Grouped) (id : Nat) (fs : List Finding) :
    (all.extend id fs).Grouped := by
  induction fs generalizing all with
  | nil => exact h
  | cons f fs ih => exact ih (h.push id f)

theorem Grouped.get_push (h : all.Grouped) (id : Nat) (f : Finding) (n : Nat) :
    (all.push id f).get n = all.get n ++ if id = n then [f] else [] := by
  unfold get Findings.push
  split
  · rename_i hn
    rw [← hn, lookup_pushInto_self h.ascending]
  · rename_i hn
    rw [lookup_pushInto_of_ne (Ne.symm hn), List.append_nil]

theorem Grouped.get_extend (h : all.Grouped) (id : Nat) (fs : List Finding) (n : Nat) :
    (all.extend id fs).get n = all.get n ++ if id = n then fs else [] := by
  induction fs generalizing all with
  | nil => simp [Findings.extend]
  | cons f fs ih =>
    have hrest : (all.extend id (f :: fs)).get n = _ := ih (h.push id f)
    rw [hrest, h.get_push, List.append_assoc]
    split <;> rfl

theorem Grouped.mem_groups_iff (h : all.Grouped) {fs : List Finding} :
    (n, fs) ∈ all.groups ↔ fs ≠ [] ∧ all.get n = fs := by
  have hlookup : ∀ {fs}, (n, fs) ∈ all.groups ↔ all.groups.lookup n = some fs :=
    mem_iff_lookup_eq_some (h.ascending.imp Nat.ne_of_lt)
  constructor
  · intro hmem
    exact ⟨h.nonempty _ hmem, by rw [get, hlookup.mp hmem, Option.getD_some]⟩
  · rintro ⟨hne, hget⟩
    rw [hlookup]
    unfold get at hget
    cases hn : all.groups.lookup n with
    | none => simp [hn, eq_comm, hne] at hget
    | some found => rw [hn, Option.getD_some] at hget; rw [hget]

theorem Grouped.mem_iff (h : all.Grouped) : f ∈ all ↔ ∃ n, f ∈ all.get n := by
  constructor
  · rintro ⟨⟨n, fs⟩, hgroup, hf⟩
    obtain ⟨-, rfl⟩ := h.mem_groups_iff.mp hgroup
    exact ⟨n, hf⟩
  · rintro ⟨n, hf⟩
    exact ⟨(n, all.get n), h.mem_groups_iff.mpr ⟨List.ne_nil_of_mem hf, rfl⟩, hf⟩

theorem Grouped.mem_extend (h : all.Grouped) {fs : List Finding} :
    f ∈ all.extend id fs ↔ f ∈ all ∨ f ∈ fs := by
  simp only [(h.extend id fs).mem_iff, h.mem_iff, h.get_extend, List.mem_append]
  constructor
  · rintro ⟨n, hf | hf⟩
    · exact .inl ⟨n, hf⟩
    · split at hf
      · exact .inr hf
      · cases hf
  · rintro (⟨n, hf⟩ | hf)
    · exact ⟨n, .inl hf⟩
    · exact ⟨id, .inr (by rwa [if_pos rfl])⟩

theorem Grouped.ext (hall : all.Grouped) (hother : other.Grouped)
    (h : ∀ n, all.get n = other.get n) : all = other := by
  have hgroups : all.groups = other.groups := by
    refine eq_of_pairwise_of_mem_iff ?_ ?_ hall.ascending hother.ascending ?_
    · exact fun a => Nat.lt_irrefl a.1
    · exact fun _ _ _ => Nat.lt_trans
    · rintro ⟨n, fs⟩
      rw [hall.mem_groups_iff, hother.mem_groups_iff, h]
  cases all
  cases other
  exact congrArg Findings.mk hgroups

end ScopeLint.Findings
