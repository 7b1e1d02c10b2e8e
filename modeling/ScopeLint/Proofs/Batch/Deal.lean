import Mathlib.Data.List.Perm.Basic
import ScopeLint.Batch

/-!
# Dealing units to workers

Chunks put together are the items again, and there are no more chunks than workers.
-/

namespace ScopeLint.Batch

variable {α : Type}

theorem flatten_chunksFrom {size fuel : Nat} {items : List α} (hsize : 0 < size)
    (hfuel : items.length ≤ fuel) : (chunksFrom size fuel items).flatten = items := by
  induction fuel generalizing items with
  | zero =>
    rw [List.length_eq_zero_iff.mp (Nat.le_zero.mp hfuel)]
    rfl
  | succ fuel ih =>
    cases items with
    | nil => rfl
    | cons x rest =>
      have hrest : ((x :: rest).drop size).length ≤ fuel := by
        rw [List.length_drop, List.length_cons] at *
        omega
      rw [chunksFrom, List.flatten_cons, ih hrest, List.take_append_drop]

theorem length_chunksFrom_le {size fuel workers : Nat} {items : List α}
    (h : items.length ≤ workers * size) : (chunksFrom size fuel items).length ≤ workers := by
  induction fuel generalizing items workers with
  | zero => exact Nat.zero_le _
  | succ fuel ih =>
    cases items with
    | nil => exact Nat.zero_le _
    | cons x rest =>
      cases workers with
      | zero => simp at h
      | succ workers =>
        have hrest : ((x :: rest).drop size).length ≤ workers * size := by
          rw [List.length_drop]
          rw [Nat.succ_mul] at h
          omega
        rw [chunksFrom, List.length_cons]
        exact Nat.succ_le_succ (ih hrest)

theorem flatten_chunks (workers : Nat) (items : List α) :
    (chunks workers items).flatten = items :=
  flatten_chunksFrom (Nat.succ_pos _) (Nat.le_refl _)

theorem length_chunks_le {workers : Nat} (h : 0 < workers) (items : List α) :
    (chunks workers items).length ≤ workers := by
  apply length_chunksFrom_le
  have hdiv := Nat.div_add_mod items.length workers
  have hmod := Nat.mod_lt items.length h
  rw [Nat.mul_add, Nat.mul_one]
  omega

theorem countP_mem_eq_one [DecidableEq α] {lists : List (List α)} {x : α}
    (hnodup : lists.flatten.Nodup) (hx : x ∈ lists.flatten) :
    lists.countP (fun list => decide (x ∈ list)) = 1 := by
  induction lists with
  | nil => simp at hx
  | cons list rest ih =>
    rw [List.flatten_cons, List.nodup_append] at hnodup
    obtain ⟨-, hrest, hdisjoint⟩ := hnodup
    rw [List.flatten_cons, List.mem_append] at hx
    by_cases hlist : x ∈ list
    · have hnone : rest.countP (fun list => decide (x ∈ list)) = 0 := by
        rw [List.countP_eq_zero]
        intro other hother hmem
        simp only [decide_eq_true_eq] at hmem
        exact hdisjoint x hlist x (List.mem_flatten.mpr ⟨other, hother, hmem⟩) rfl
      rw [List.countP_cons_of_pos (by simpa using hlist), hnone]
    · rw [List.countP_cons_of_neg (by simpa using hlist)]
      exact ih hrest (hx.resolve_left hlist)

/-- The chunks hold each unit once, and there are no more chunks than workers. -/
structure IsDeal (workers : Nat) (units : List Source) (dealt : List (List Source)) : Prop where
  length_le : dealt.length ≤ workers
  perm : dealt.flatten.Perm units
  once : ∀ u ∈ units, dealt.countP (fun chunk => decide (u ∈ chunk)) = 1

theorem isDeal_chunks {workers : Nat} {units shuffled : List Source} (h : 0 < workers)
    (hunits : units.Nodup) (hshuffled : shuffled.Perm units) :
    IsDeal workers units (chunks workers shuffled) where
  length_le := length_chunks_le h shuffled
  perm := by rw [flatten_chunks]; exact hshuffled
  once := by
    intro u hu
    apply countP_mem_eq_one
    · rw [flatten_chunks]
      exact hshuffled.nodup_iff.mpr hunits
    · rw [flatten_chunks]
      exact hshuffled.mem_iff.mpr hu

end ScopeLint.Batch
