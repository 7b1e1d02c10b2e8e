import Mathlib.Data.List.Sort
import ScopeLint.Text.Natural

/-!
# Natural order is an order

Each piece of a name has a key, a list of numbers, such that pieces are ordered as their keys are.
So of any two names one may stand before the other, and what may stand before a name may stand
before all that this name may stand before.
-/

namespace ScopeLint.Natural

open Std (TransCmp OrientedCmp)

theorem compare_eq_toNat (c d : Char) : compare c d = compare c.toNat d.toNat := by
  have hlt : (c < d) = (c.toNat < d.toNat) := rfl
  show compareOfLessAndEq c d = compareOfLessAndEq c.toNat d.toNat
  simp only [compareOfLessAndEq, hlt, Char.toNat_inj]

theorem compareLex_map {α β : Type} {cmp : α → α → Ordering} {other : β → β → Ordering}
    (f : α → β) {items others : List α}
    (h : ∀ a ∈ items, ∀ b ∈ others, cmp a b = other (f a) (f b)) :
    List.compareLex cmp items others = List.compareLex other (items.map f) (others.map f) := by
  induction items generalizing others with
  | nil => cases others <;> rfl
  | cons a items ih =>
    cases others with
    | nil => rfl
    | cons b others =>
      rw [List.map_cons, List.map_cons, List.compareLex_cons_cons, List.compareLex_cons_cons,
        h a List.mem_cons_self b List.mem_cons_self]
      rw [ih fun a ha b hb => h a (List.mem_cons_of_mem _ ha) b (List.mem_cons_of_mem _ hb)]

namespace Piece

/-- A number consists of digits, and no digit stands outside a number. -/
def Proper : Piece → Prop
  | number digit more => digit.isDigit = true ∧ ∀ c ∈ more, c.isDigit = true
  | other c => c.isDigit = false

theorem proper_ofWord (word : List Char) : ∀ p ∈ ofWord word, p.Proper := by
  fun_induction ofWord word with
  | case1 => simp
  | case2 c rest hdigit d ds pieces hpieces ih =>
    rw [hpieces] at ih
    intro p hp
    rcases List.mem_cons.mp hp with rfl | hp
    · have hfirst : d.isDigit = true ∧ ∀ c ∈ ds, c.isDigit = true := ih _ List.mem_cons_self
      exact ⟨hdigit, List.forall_mem_cons.mpr hfirst⟩
    · exact ih p (List.mem_cons_of_mem _ hp)
  | case3 c rest hdigit _ ih =>
    intro p hp
    rcases List.mem_cons.mp hp with rfl | hp
    · exact ⟨hdigit, fun _ h => by cases h⟩
    · exact ih p hp
  | case4 c rest hdigit ih =>
    intro p hp
    rcases List.mem_cons.mp hp with rfl | hp
    · exact Bool.eq_false_iff.mpr hdigit
    · exact ih p hp

/-- All numbers without a zero in front have the first entry of `1`, and their length decides. -/
def key : Piece → List Nat
  | number digit more =>
    if digit = '0' then '0'.toNat :: more.map Char.toNat
    else '1'.toNat :: more.length :: (digit :: more).map Char.toNat
  | other c => [c.toNat]

theorem compareLex_toNat (a b : List Char) :
    List.compareLex compare a b = List.compareLex compare (a.map Char.toNat) (b.map Char.toNat) :=
  compareLex_map Char.toNat fun c _ d _ => compare_eq_toNat c d

theorem toNat_of_isDigit {c : Char} (h : c.isDigit = true) : 48 ≤ c.toNat ∧ c.toNat ≤ 57 := by
  unfold Char.isDigit at h
  rw [Bool.and_eq_true, decide_eq_true_eq, decide_eq_true_eq] at h
  exact h

theorem toNat_of_not_isDigit {c : Char} (h : c.isDigit = false) : c.toNat < 48 ∨ 57 < c.toNat := by
  by_contra hno
  rw [not_or, Nat.not_lt, Nat.not_lt] at hno
  have hdigit : c.isDigit = true := by
    unfold Char.isDigit
    rw [Bool.and_eq_true, decide_eq_true_eq, decide_eq_true_eq]
    exact hno
  rw [h] at hdigit
  cases hdigit

theorem exists_key_number (digit : Char) (more : List Char) :
    ∃ first rest, key (number digit more) = first :: rest ∧ 48 ≤ first ∧ first ≤ 57 := by
  rw [key]
  split
  · exact ⟨'0'.toNat, _, rfl, by decide, by decide⟩
  · exact ⟨'1'.toNat, _, rfl, by decide, by decide⟩

theorem order_numbers {c d : Char} {cs ds : List Char} (hc : c.isDigit = true)
    (hd : d.isDigit = true) : (number c cs).order (number d ds) =
      List.compareLex compare (key (number c cs)) (key (number d ds)) := by
  have hpositive : ∀ {c : Char}, c.isDigit = true → c ≠ '0' → 48 < c.toNat := by
    intro c hdigit hne
    have hno : c.toNat ≠ '0'.toNat := fun h => hne (Char.toNat_inj.mp h)
    exact Nat.lt_of_le_of_ne (toNat_of_isDigit hdigit).1 (Ne.symm hno)
  rw [order, compareNumbers, key, key]
  by_cases hzero : c = '0' <;> by_cases hother : d = '0'
  · subst hzero hother
    simp only [List.head?_cons, or_self, if_true]
    exact compareLex_toNat _ _
  · have hlt : compare 48 d.toNat = .lt := Nat.compare_eq_lt.mpr (hpositive hd hother)
    subst hzero
    simp only [List.head?_cons, true_or, if_true, if_neg hother, List.compareLex_cons_cons,
      compare_eq_toNat]
    rw [show '0'.toNat = 48 from rfl, show '1'.toNat = 49 from rfl, hlt,
      Nat.compare_eq_lt.mpr (by decide : 48 < 49)]
    rfl
  · have hgt : compare c.toNat 48 = .gt := Nat.compare_eq_gt.mpr (hpositive hc hzero)
    subst hother
    simp only [List.head?_cons, or_true, if_true, if_neg hzero, List.compareLex_cons_cons,
      compare_eq_toNat]
    rw [show '0'.toNat = 48 from rfl, show '1'.toNat = 49 from rfl, hgt,
      Nat.compare_eq_gt.mpr (by decide : 48 < 49)]
    rfl
  · have hheads : ¬((c :: cs).head? = some '0' ∨ (d :: ds).head? = some '0') := by
      simp [hzero, hother]
    have hlength : compare (cs.length + 1) (ds.length + 1) = compare cs.length ds.length := by
      simp only [Nat.compare_eq_ite_lt, Nat.add_lt_add_iff_right]
    rw [if_neg hheads, if_neg hzero, if_neg hother, compareLex_toNat (c :: cs), List.length_cons,
      List.length_cons, hlength, List.compareLex_cons_cons, List.compareLex_cons_cons,
      Nat.compare_eq_eq.mpr rfl]
    rfl

theorem order_eq {a b : Piece} (ha : a.Proper) (hb : b.Proper) :
    a.order b = List.compareLex compare a.key b.key := by
  cases a with
  | number c cs =>
    cases b with
    | number d ds => exact order_numbers ha.1 hb.1
    | other d =>
      obtain ⟨first, rest, hkey, hfirst⟩ := exists_key_number c cs
      have hc := toNat_of_isDigit ha.1
      rw [hkey, key, List.compareLex_cons_cons]
      show compare c d = _
      rw [compare_eq_toNat]
      -- The digit of the number and the first entry of its key are on the same side of `d`.
      rcases toNat_of_not_isDigit hb with hd | hd
      · rw [Nat.compare_eq_gt.mpr (by omega), Nat.compare_eq_gt.mpr (by omega)]
        rfl
      · rw [Nat.compare_eq_lt.mpr (by omega), Nat.compare_eq_lt.mpr (by omega)]
        rfl
  | other c =>
    cases b with
    | number d ds =>
      obtain ⟨first, rest, hkey, hfirst⟩ := exists_key_number d ds
      have hd := toNat_of_isDigit hb.1
      rw [hkey, key, List.compareLex_cons_cons]
      show compare c d = _
      rw [compare_eq_toNat]
      rcases toNat_of_not_isDigit ha with hc | hc
      · rw [Nat.compare_eq_lt.mpr (by omega), Nat.compare_eq_lt.mpr (by omega)]
        rfl
      · rw [Nat.compare_eq_gt.mpr (by omega), Nat.compare_eq_gt.mpr (by omega)]
        rfl
    | other d =>
      rw [key, key, List.compareLex_cons_cons, List.compareLex_nil_nil, Ordering.then_eq]
      exact compare_eq_toNat c d

end Piece

/-! ## Names -/

theorem proper_of_mem_pieces {name : String} {p : Piece} (h : p ∈ pieces name) : p.Proper := by
  obtain ⟨word, -, hp⟩ := List.mem_flatMap.mp h
  exact Piece.proper_ofWord word p hp

def keys (name : String) : List (List Nat) := (pieces name).map Piece.key

theorem le_iff {a b : String} :
    le a b = true ↔ (List.compareLex (List.compareLex compare) (keys a) (keys b)).isLE = true := by
  have hnames : compareNames a b =
      List.compareLex (List.compareLex compare) (keys a) (keys b) :=
    compareLex_map Piece.key fun _ hp _ hq =>
      Piece.order_eq (proper_of_mem_pieces hp) (proper_of_mem_pieces hq)
  rw [le, hnames, bne_iff_ne]
  exact Ordering.ne_gt_iff_isLE

theorem le_trans {a b c : String} (hab : le a b = true) (hbc : le b c = true) :
    le a c = true := by
  rw [le_iff] at *
  exact TransCmp.isLE_trans hab hbc

theorem le_total {a b : String} (h : le a b = false) : le b a = true := by
  have hno : ¬le a b = true := by simp [h]
  rw [le_iff] at *
  exact Ordering.isLE_of_eq_lt (OrientedCmp.lt_of_not_isLE hno)

end ScopeLint.Natural
