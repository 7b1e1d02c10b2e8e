import ScopeLint.Proofs.Extent.Balance

/-!
# Groups nest

Two groups of the same brackets are found by two readings, each with a count of its own. Where the
second one opens inside the first, its count stays below the count of the first, and so it is closed
earlier.
-/

namespace ScopeLint.Extent

variable {s : Source} {d : Delimiters} {start p q stop stop' : Position} {depth : Nat}
  {bytes front back : List CodeByte}

/-! ## Bytes from a position on -/

theorem bytesAt_eq_of_append {skipped back : List CodeByte} {x : CodeByte}
    (h : (Code.ofSource s).bytesAt start = skipped ++ x :: back) :
    (Code.ofSource s).bytesAt x.pos = x :: back := by
  have hsorted := Code.pairwise_bytesAt s start
  have hmem : x ∈ (Code.ofSource s).bytesAt start := by simp [h]
  have hstart := (Code.mem_bytesAt.mp hmem).2
  have hiff : ∀ y, y ∈ x :: back ↔ y ∈ (Code.ofSource s).bytesAt start ∧ x.pos ≤ y.pos := by
    rw [h] at hsorted ⊢
    exact fun y => Code.mem_cons_back_iff hsorted
  refine eq_of_pairwise_of_mem_iff (r := fun a b : CodeByte => a.pos < b.pos)
    (fun x => Position.lt_irrefl x.pos) (fun _ _ _ => Position.lt_trans)
    (Code.pairwise_bytesAt s x.pos) ?_ fun y => ?_
  · rw [h] at hsorted
    exact (List.pairwise_append.mp hsorted).2.1
  · rw [hiff, Code.mem_bytesAt, Code.mem_bytesAt]
    exact ⟨fun ⟨hy, hle⟩ => ⟨⟨hy, Position.le_trans hstart hle⟩, hle⟩,
      fun ⟨⟨hy, _⟩, hle⟩ => ⟨hy, hle⟩⟩

theorem bytesAt_eq_cons {b : UInt8} (hp : s.HasCode p b) :
    ∃ back, (Code.ofSource s).bytesAt p = ⟨p, b⟩ :: back := by
  obtain ⟨front, back, h⟩ := List.append_of_mem
    (Code.mem_bytesAt.mpr ⟨Code.mem_bytes (x := ⟨p, b⟩).mpr hp, Position.le_refl p⟩)
  exact ⟨back, bytesAt_eq_of_append h⟩

theorem exists_bytesAt_eq {a b : UInt8} (hp : s.HasCode p a) (hq : s.HasCode q b) (hlt : p < q) :
    ∃ mid back, (Code.ofSource s).bytesAt p = ⟨p, a⟩ :: (mid ++ ⟨q, b⟩ :: back) ∧
      (Code.ofSource s).bytesAt q = ⟨q, b⟩ :: back := by
  obtain ⟨behind, hbehind⟩ := bytesAt_eq_cons hp
  have hmem : (⟨q, b⟩ : CodeByte) ∈ (Code.ofSource s).bytesAt p :=
    Code.mem_bytesAt.mpr ⟨Code.mem_bytes.mpr hq, Position.le_of_lt hlt⟩
  rw [hbehind, List.mem_cons] at hmem
  rcases hmem with heq | hmem
  · obtain ⟨rfl, -⟩ := CodeByte.mk.inj heq
    exact absurd hlt (Position.lt_irrefl q)
  · obtain ⟨mid, back, rfl⟩ := List.append_of_mem hmem
    rw [← List.cons_append] at hbehind
    exact ⟨mid, back, hbehind, bytesAt_eq_of_append hbehind⟩

/-! ## Two readings of the same bytes -/

/-- A group that is open ends among the bytes in front, or is still open behind them. -/
theorem exists_mem_or_read_of_append (h : read d (depth + 1) (front ++ back) = .closed p) :
    (∃ b ∈ front, b.pos = p) ∨ ∃ depth', read d (depth' + 1) back = .closed p := by
  induction front generalizing depth with
  | nil => exact .inr ⟨depth, h⟩
  | cons b front ih =>
    have hfront : ∀ {depth}, read d (depth + 1) (front ++ back) = .closed p →
        (∃ x ∈ b :: front, x.pos = p) ∨ ∃ depth', read d (depth' + 1) back = .closed p := by
      intro depth h
      rcases ih h with ⟨x, hx, hp⟩ | hback
      · exact .inl ⟨x, List.mem_cons_of_mem _ hx, hp⟩
      · exact .inr hback
    rw [List.cons_append, read] at h
    split at h
    · split at h
      · cases h
      · exact hfront h
    · split at h
      · cases depth with
        | zero => exact .inl ⟨b, List.mem_cons_self, Reading.closed.inj h⟩
        | succ depth => exact hfront h
      · exact hfront h

/-- With more groups open, the same bytes close the last of them later. -/
theorem lt_of_read {outer : Nat} (hsorted : bytes.Pairwise fun a b => a.pos < b.pos)
    (hlt : depth < outer) (hp : read d (depth + 1) bytes = .closed p)
    (hq : read d (outer + 1) bytes = .closed q) : p < q := by
  induction bytes generalizing depth outer with
  | nil => cases hp
  | cons b rest ih =>
    obtain ⟨hfirst, hrest⟩ := List.pairwise_cons.mp hsorted
    rw [read] at hp hq
    split at hp
    · rename_i hopening
      rw [if_pos hopening] at hq
      split at hp
      · cases hp
      · split at hq
        · cases hq
        · exact ih hrest (Nat.succ_lt_succ hlt) hp hq
    · rename_i hopening
      rw [if_neg hopening] at hq
      split at hp
      · rename_i hclosing
        obtain ⟨outer, rfl⟩ := Nat.exists_eq_add_one_of_ne_zero (Nat.ne_zero_of_lt hlt)
        rw [if_pos hclosing, if_neg (Nat.succ_ne_zero _)] at hq
        cases depth with
        | zero =>
          -- The count of `p` is used up here, and the other reading goes on.
          obtain rfl := Reading.closed.inj hp
          obtain ⟨x, hx, rfl, -⟩ := exists_mem_of_read hq
          exact hfirst x hx
        | succ depth => exact ih hrest (Nat.lt_of_succ_lt_succ hlt) hp hq
      · rename_i hclosing
        rw [if_neg hclosing] at hq
        exact ih hrest hlt hp hq

/-! ## Groups of a unit -/

theorem lt_or_lt_of_resolve (hp : s.HasCode p d.opening.toUInt8)
    (hq : s.HasCode q d.opening.toUInt8) (hlt : p < q)
    (hstop : resolve (Code.ofSource s) p d = .ok stop)
    (hstop' : resolve (Code.ofSource s) q d = .ok stop') : stop < q ∨ stop' < stop := by
  obtain ⟨mid, back, hbytes, hbytes'⟩ := exists_bytesAt_eq hp hq hlt
  have hsorted := Code.pairwise_bytesAt s p
  rw [hbytes] at hsorted
  obtain ⟨-, hback, hmid⟩ := List.pairwise_append.mp (List.pairwise_cons.mp hsorted).2
  rw [resolve_eq_ok_iff, hbytes, read_cons_opening rfl] at hstop
  rw [resolve_eq_ok_iff, hbytes', read_cons_opening rfl] at hstop'
  rcases exists_mem_or_read_of_append hstop with ⟨b, hb, rfl⟩ | ⟨depth, hread⟩
  · exact .inl (hmid b hb _ List.mem_cons_self)
  · right
    rw [read, if_pos rfl] at hread
    split at hread
    · cases hread
    · exact lt_of_read (List.pairwise_cons.mp hback).2 (Nat.succ_pos depth) hstop' hread

/-- Two groups of the same brackets do not cross, and no bracket closes both. -/
theorem apart_or_within_of_resolve (hp : s.HasCode p d.opening.toUInt8)
    (hq : s.HasCode q d.opening.toUInt8) (hlt : p < q)
    (hstop : resolve (Code.ofSource s) p d = .ok stop)
    (hstop' : resolve (Code.ofSource s) q d = .ok stop') :
    (stop < q ∨ stop' < stop) ∧ stop ≠ stop' ∧
      ((⟨p, stop⟩ : Span).Apart ⟨q, stop'⟩ ∨ (⟨q, stop'⟩ : Span).StrictlyWithin ⟨p, stop⟩) := by
  have hends := lt_or_lt_of_resolve hp hq hlt hstop hstop'
  refine ⟨hends, ?_, ?_⟩
  · rintro rfl
    have hle : q ≤ stop := (fitsIn_of_resolve hstop').1
    rcases hends with hlt | hlt
    · exact Position.not_le.mpr hlt hle
    · exact Position.lt_irrefl stop hlt
  · apply hends.imp Span.apart_of_lt
    intro hinner
    refine ⟨fun heq => ?_, Position.le_of_lt hlt, Position.le_of_lt hinner⟩
    obtain ⟨rfl, -⟩ := Span.mk.inj heq
    exact Position.lt_irrefl q hlt

def nestedCalls : Source := ⟨"calls.cpp", ["f(g(')'), /* ) */".toList, "  h(1)) + k(2);".toList]⟩

theorem apart_or_within_nestedCalls :
    resolve (Code.ofSource nestedCalls) ⟨0, 1⟩ .parentheses = .ok ⟨1, 6⟩ ∧
      resolve (Code.ofSource nestedCalls) ⟨0, 3⟩ .parentheses = .ok ⟨0, 7⟩ ∧
      ((⟨⟨0, 1⟩, ⟨1, 6⟩⟩ : Span).Apart ⟨⟨0, 3⟩, ⟨0, 7⟩⟩ ∨
        (⟨⟨0, 3⟩, ⟨0, 7⟩⟩ : Span).StrictlyWithin ⟨⟨0, 1⟩, ⟨1, 6⟩⟩) := by
  have houter : resolve (Code.ofSource nestedCalls) ⟨0, 1⟩ .parentheses = .ok ⟨1, 6⟩ := by
    decide +kernel
  have hinner : resolve (Code.ofSource nestedCalls) ⟨0, 3⟩ .parentheses = .ok ⟨0, 7⟩ := by
    decide +kernel
  have hp : nestedCalls.HasCode ⟨0, 1⟩ '('.toUInt8 := ⟨by decide +kernel, by decide +kernel⟩
  have hq : nestedCalls.HasCode ⟨0, 3⟩ '('.toUInt8 := ⟨by decide +kernel, by decide +kernel⟩
  have hgroups := apart_or_within_of_resolve hp hq (by decide) houter hinner
  exact ⟨houter, hinner, hgroups.2.2⟩

end ScopeLint.Extent
