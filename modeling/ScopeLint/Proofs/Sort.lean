import Mathlib.Data.List.Sort
import ScopeLint.Sort

/-!
# Sorted lists

Sorting sorts and is stable, and a strictly sorted list is known by its members. Entries with
distinct keys are known by what looking up finds.
-/

namespace ScopeLint

variable {α : Type} {le : α → α → Bool}

theorem pairwise_insertBy (htrans : ∀ a b c, le a b = true → le b c = true → le a c = true)
    (htotal : ∀ a b, le a b = false → le b a = true) {r : α → α → Prop} (x : α) {items : List α}
    (h : items.Pairwise fun a b => le a b = true ∧ (le b a = true → r a b))
    (hx : ∀ y ∈ items, r x y) :
    (insertBy le x items).Pairwise fun a b => le a b = true ∧ (le b a = true → r a b) := by
  induction items with
  | nil => exact List.pairwise_singleton _ _
  | cons y rest ih =>
    rw [List.pairwise_cons] at h
    rw [insertBy]
    split
    · rename_i hxy
      refine .cons ?_ (.cons h.1 h.2)
      intro z hz
      refine ⟨?_, fun _ => hx z hz⟩
      rcases List.mem_cons.mp hz with rfl | hz
      · exact hxy
      · exact htrans x y z hxy (h.1 z hz).1
    · rename_i hxy
      refine .cons ?_ (ih h.2 fun z hz => hx z (List.mem_cons_of_mem _ hz))
      intro z hz
      rcases List.mem_cons.mp ((perm_insertBy le x rest).mem_iff.mp hz) with rfl | hz
      · exact ⟨htotal z y (by simpa using hxy), fun hzy => absurd hzy hxy⟩
      · exact h.1 z hz

/-- What may stand on either side of each other stands as it stood before the sort. -/
theorem pairwise_sortBy_of_pairwise (le : α → α → Bool)
    (htrans : ∀ a b c, le a b = true → le b c = true → le a c = true)
    (htotal : ∀ a b, le a b = false → le b a = true) {r : α → α → Prop} {items : List α}
    (h : items.Pairwise r) :
    (sortBy le items).Pairwise fun a b => le a b = true ∧ (le b a = true → r a b) := by
  induction items with
  | nil => exact .nil
  | cons x rest ih =>
    rw [List.pairwise_cons] at h
    exact pairwise_insertBy htrans htotal x (ih h.2) fun y hy =>
      h.1 y ((perm_sortBy le rest).mem_iff.mp hy)

theorem pairwise_sortBy (le : α → α → Bool)
    (htrans : ∀ a b c, le a b = true → le b c = true → le a c = true)
    (htotal : ∀ a b, le a b = false → le b a = true) (items : List α) :
    (sortBy le items).Pairwise fun a b => le a b = true := by
  have hany : items.Pairwise fun _ _ => True := List.pairwise_of_forall fun _ _ => trivial
  exact (pairwise_sortBy_of_pairwise le htrans htotal hany).imp And.left

/-! ## What sorting keeps -/

theorem sortBy_eq_self {items : List α} (h : items.Pairwise fun a b => le a b = true) :
    sortBy le items = items := by
  induction items with
  | nil => rfl
  | cons x rest ih =>
    rw [List.pairwise_cons] at h
    rw [sortBy, ih h.2]
    cases rest with
    | nil => rfl
    | cons y rest => rw [insertBy, if_pos (h.1 y (by simp))]

theorem filter_insertBy (htrans : ∀ a b c, le a b = true → le b c = true → le a c = true)
    (p : α → Bool) (x : α) {items : List α} (h : items.Pairwise fun a b => le a b = true) :
    (insertBy le x items).filter p =
      if p x then insertBy le x (items.filter p) else items.filter p := by
  induction items with
  | nil => simp [insertBy, List.filter_cons]
  | cons y rest ih =>
    rw [List.pairwise_cons] at h
    rw [insertBy]
    split
    · rename_i hxy
      -- What is kept behind `y` is behind `x` too, so `x` comes first in what is kept.
      have hfirst : ∀ z ∈ (y :: rest).filter p, le x z = true := by
        intro z hz
        rcases List.mem_cons.mp (List.mem_of_mem_filter hz) with rfl | hz
        · exact hxy
        · exact htrans x y z hxy (h.1 z hz)
      rw [List.filter_cons]
      split
      · cases hkept : (y :: rest).filter p with
        | nil => simp [insertBy]
        | cons z kept => simp [insertBy, hfirst z (by simp [hkept])]
      · rfl
    · rename_i hxy
      rw [List.filter_cons, ih h.2]
      by_cases hx : p x <;> by_cases hy : p y <;> simp [hx, hy, insertBy, hxy]

/-- To sort what is kept is to keep from what is sorted: the sort is stable. -/
theorem filter_sortBy (htrans : ∀ a b c, le a b = true → le b c = true → le a c = true)
    (htotal : ∀ a b, le a b = false → le b a = true) (p : α → Bool) (items : List α) :
    (sortBy le items).filter p = sortBy le (items.filter p) := by
  induction items with
  | nil => rfl
  | cons x rest ih =>
    rw [sortBy, filter_insertBy htrans p x (pairwise_sortBy le htrans htotal rest), ih]
    by_cases hx : p x <;> simp [hx, sortBy]

theorem eq_of_pairwise_of_mem_iff {r : α → α → Prop} (hirrefl : ∀ a, ¬r a a)
    (htrans : ∀ a b c, r a b → r b c → r a c) {items others : List α} (hitems : items.Pairwise r)
    (hothers : others.Pairwise r) (h : ∀ a, a ∈ items ↔ a ∈ others) : items = others := by
  have : Std.Irrefl r := ⟨hirrefl⟩
  have : Std.Antisymm r := ⟨fun a b hab hba => absurd (htrans a b a hab hba) (hirrefl a)⟩
  exact hitems.eq_of_mem_iff hothers h

theorem pairwise_zipIdx (items : List α) : items.zipIdx.Pairwise fun x y => x.2 < y.2 := by
  rw [← List.pairwise_map, List.zipIdx_map_snd]
  exact List.pairwise_lt_range'

theorem find?_eq_some_iff_of_pairwise {r : α → α → Prop} (hasymm : ∀ a b, r a b → ¬r b a)
    {p : α → Bool} {items : List α} (h : items.Pairwise r) {a : α} :
    items.find? p = some a ↔ a ∈ items ∧ p a = true ∧ ∀ b, b ∈ items → p b = true → ¬r b a := by
  rw [List.find?_eq_some_iff_append]
  constructor
  · rintro ⟨ha, front, back, rfl, hfront⟩
    refine ⟨by simp, ha, fun b hb hp => ?_⟩
    rcases List.mem_append.mp hb with hb | hb
    · have hno := hfront b hb
      rw [hp] at hno
      cases hno
    · rcases List.mem_cons.mp hb with rfl | hb
      · exact fun hbefore => hasymm _ _ hbefore hbefore
      · exact hasymm a b (List.rel_of_pairwise_cons (List.pairwise_append.mp h).2.1 hb)
  · rintro ⟨hmem, ha, hfirst⟩
    obtain ⟨front, back, rfl⟩ := List.append_of_mem hmem
    refine ⟨ha, front, back, rfl, fun b hb => ?_⟩
    have hbefore := (List.pairwise_append.mp h).2.2 b hb a List.mem_cons_self
    rw [Bool.not_eq_true']
    exact Bool.eq_false_iff.mpr fun hp => hfirst b (List.mem_append_left _ hb) hp hbefore

theorem eq_of_pairwise_of_filter_eq {κ : Type} [DecidableEq κ] {r : κ → κ → Prop}
    (hantisymm : ∀ a b, r a b → r b a → a = b) (key : α → κ) {items others : List α}
    (hitems : items.Pairwise fun x y => r (key x) (key y))
    (hothers : others.Pairwise fun x y => r (key x) (key y))
    (h : ∀ k, items.filter (fun x => decide (key x = k)) =
      others.filter fun x => decide (key x = k)) : items = others := by
  induction items generalizing others with
  | nil =>
    cases others with
    | nil => rfl
    | cons y others => simpa using h (key y)
  | cons x items ih =>
    cases others with
    | nil => simpa using h (key x)
    | cons y others =>
      have hmem : ∀ z, z ∈ x :: items ↔ z ∈ y :: others := by
        intro z
        have hz := congrArg (z ∈ ·) (h (key z))
        simpa using hz
      rw [List.pairwise_cons] at hitems hothers
      -- Each head stands in the other list, so that neither has the smaller key.
      have hkey : key x = key y := by
        rcases List.mem_cons.mp ((hmem x).mp List.mem_cons_self) with rfl | hx
        · rfl
        · rcases List.mem_cons.mp ((hmem y).mpr List.mem_cons_self) with rfl | hy
          · rfl
          · exact hantisymm _ _ (hitems.1 y hy) (hothers.1 x hx)
      have hhead := h (key y)
      simp only [List.filter_cons, hkey, decide_true, if_true, List.cons.injEq] at hhead
      obtain ⟨rfl, -⟩ := hhead
      congr 1
      apply ih hitems.2 hothers.2
      intro k
      have hk := h k
      by_cases hxk : key x = k
      · simpa [hxk] using hk
      · simpa [hxk] using hk

/-! ## Entries -/

theorem filter_key_eq_singleton {κ : Type} [DecidableEq κ] (key : α → κ) {items : List α} {x : α}
    (h : (items.map key).Nodup) (hx : x ∈ items) :
    items.filter (fun y => decide (key y = key x)) = [x] := by
  induction items with
  | nil => cases hx
  | cons y rest ih =>
    rw [List.map_cons, List.nodup_cons] at h
    rcases List.mem_cons.mp hx with rfl | hx
    · have hrest : rest.filter (fun y => decide (key y = key x)) = [] := by
        rw [List.filter_eq_nil_iff]
        intro y hy hkey
        exact h.1 (List.mem_map.mpr ⟨y, hy, of_decide_eq_true hkey⟩)
      rw [List.filter_cons_of_pos (by simp), hrest]
    · have hkey : key y ≠ key x := by
        intro hkey
        exact h.1 (List.mem_map.mpr ⟨x, hx, hkey.symm⟩)
      rw [List.filter_cons_of_neg (by simpa using hkey), ih h.2 hx]

theorem mem_iff_lookup_eq_some {κ : Type} [BEq κ] [LawfulBEq κ] {entries : List (κ × α)}
    (h : entries.Pairwise fun a b => a.1 ≠ b.1) {key : κ} {value : α} :
    (key, value) ∈ entries ↔ entries.lookup key = some value := by
  induction entries with
  | nil => simp
  | cons entry rest ih =>
    obtain ⟨k, v⟩ := entry
    rw [List.pairwise_cons] at h
    rw [List.mem_cons, List.lookup_cons, ih h.2, Prod.mk.injEq]
    by_cases hk : key = k
    · subst hk
      have hrest : rest.lookup key ≠ some value := by
        intro hlookup
        exact h.1 (key, value) ((ih h.2).mpr hlookup) rfl
      simp only [true_and, hrest, or_false, beq_self_eq_true, Option.some.injEq]
      exact eq_comm
    · have hbeq : (key == k) = false := by simpa using hk
      rw [hbeq]
      simp [hk]

end ScopeLint
