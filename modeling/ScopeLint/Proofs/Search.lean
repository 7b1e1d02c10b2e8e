import ScopeLint.Sort

/-!
# Binary search finds the front

The items that satisfy a predicate and stand in front of those that do not are counted by
`frontCount`, and `lastInFront?` gives the last of them.
-/

namespace ScopeLint

def IsFront {α : Type} (p : α → Bool) (items : List α) : Prop :=
  items.Pairwise fun a b => p b = true → p a = true

theorem isFront_getElem {α : Type} {p : α → Bool} {items : List α} (h : IsFront p items) (i : Nat)
    (hi : i < items.length) : p items[i] = true ↔ i < (items.takeWhile p).length := by
  induction items generalizing i with
  | nil => simp at hi
  | cons x rest ih =>
    unfold IsFront at h
    rw [List.pairwise_cons] at h
    rw [List.takeWhile_cons]
    cases i with
    | zero => cases hx : p x <;> simp [hx]
    | succ i =>
      simp only [List.length_cons, Nat.add_lt_add_iff_right] at hi
      split
      · rw [List.getElem_cons_succ, ih h.2 i hi]
        simp
      · rename_i hx
        simp only [List.getElem_cons_succ, List.length_nil, Nat.not_lt_zero, iff_false]
        exact fun hp => hx (h.1 _ (List.getElem_mem hi) hp)

/-- The window always holds the end of the front. -/
theorem frontCountFrom_eq {α : Type} {p : α → Bool} {items : Array α}
    (h : IsFront p items.toList) (fuel low high : Nat)
    (hlow : low ≤ (items.toList.takeWhile p).length)
    (hhigh : (items.toList.takeWhile p).length ≤ high)
    (hsize : high ≤ items.size) (hfuel : high - low ≤ fuel) :
    frontCountFrom p items fuel low high = (items.toList.takeWhile p).length := by
  induction fuel generalizing low high with
  | zero => rw [frontCountFrom]; omega
  | succ fuel ih =>
    rw [frontCountFrom]
    split
    · have hmid : (low + high) / 2 < items.size := by omega
      have hfront := isFront_getElem h ((low + high) / 2) (by simpa using hmid)
      rw [Array.getElem_toList] at hfront
      simp only [Array.getElem?_eq_getElem hmid]
      split
      · rename_i hp
        have := hfront.mp hp
        exact ih _ _ (by omega) hhigh hsize (by omega)
      · rename_i hp
        have := mt hfront.mpr hp
        exact ih _ _ hlow (by omega) (by omega) (by omega)
    · omega

theorem frontCount_eq {α : Type} {p : α → Bool} {items : Array α} (h : IsFront p items.toList) :
    frontCount p items = (items.toList.takeWhile p).length := by
  have hle := (List.takeWhile_sublist p (l := items.toList)).length_le
  exact frontCountFrom_eq h _ _ _ (by omega) (by simpa using hle) (by omega) (by omega)

theorem lastInFront?_eq {α : Type} {p : α → Bool} {items : Array α}
    (h : IsFront p items.toList) : lastInFront? p items = (items.toList.takeWhile p).getLast? := by
  have hpre : items.toList.takeWhile p <+: items.toList := List.takeWhile_prefix p
  unfold lastInFront?
  rw [frontCount_eq h, List.getLast?_eq_getElem?]
  split
  · rename_i hn
    simp [List.length_eq_zero_iff.mp hn]
  · rename_i n hn
    have hlt : n < (items.toList.takeWhile p).length := by omega
    have hsize : n < items.toList.length := Nat.lt_of_lt_of_le hlt hpre.length_le
    rw [hn, Nat.succ_sub_one, List.getElem?_eq_getElem hlt, hpre.getElem hlt,
      ← Array.getElem?_toList, List.getElem?_eq_getElem hsize]

theorem not_of_mem_dropWhile {α : Type} {p : α → Bool} {items : List α} (h : IsFront p items)
    {x : α} (hx : x ∈ items.dropWhile p) : p x ≠ true := by
  induction items with
  | nil => simp at hx
  | cons y rest ih =>
    unfold IsFront at h
    rw [List.pairwise_cons] at h
    rw [List.dropWhile_cons] at hx
    split at hx
    · exact ih h.2 hx
    · rename_i hy
      rcases List.mem_cons.mp hx with rfl | hx
      · exact hy
      · exact fun hp => hy (h.1 x hx hp)

theorem dropWhile_eq_filter {α : Type} {p : α → Bool} {items : List α} (h : IsFront p items) :
    items.dropWhile p = items.filter fun x => !p x := by
  induction items with
  | nil => rfl
  | cons y rest ih =>
    have hrest := List.pairwise_cons.mp h
    rw [List.dropWhile_cons, List.filter_cons]
    by_cases hy : p y = true
    · rw [if_pos hy, if_neg (by simp [hy]), ih hrest.2]
    · have hall : ∀ x ∈ rest, (!p x) = true := by
        intro x hx
        simpa using fun hp => hy (hrest.1 x hx hp)
      rw [if_neg hy, if_pos (by simpa using hy), List.filter_eq_self.mpr hall]

end ScopeLint
