import Mathlib.Data.List.Chain
import ScopeLint.Proofs.Search
import ScopeLint.Span

/-!
# Spans in order

Among spans that follow one another without overlaps, the search by halving finds what a search from
the left finds.
-/

namespace ScopeLint

/-! ## Positions -/

namespace Position

def after (p : Position) (n : Nat) : Position := ⟨p.line, p.col + n⟩

@[simp] theorem after_line (p : Position) (n : Nat) : (p.after n).line = p.line := rfl
@[simp] theorem after_col (p : Position) (n : Nat) : (p.after n).col = p.col + n := rfl

theorem le_of_lt {a b : Position} (h : a < b) : a ≤ b := by
  rw [lt_def] at h; rw [le_def]; omega

theorem lt_of_le_of_lt {a b c : Position} (h : a ≤ b) (k : b < c) : a < c := by
  rw [le_def] at h; rw [lt_def] at *; omega

theorem lt_of_lt_of_le {a b c : Position} (h : a < b) (k : b ≤ c) : a < c := by
  rw [le_def] at k; rw [lt_def] at *; omega

theorem lt_irrefl (a : Position) : ¬a < a := by rw [lt_def]; omega

theorem lt_trans {a b c : Position} (h : a < b) (k : b < c) : a < c :=
  lt_of_le_of_lt (le_of_lt h) k

theorem origin_le (a : Position) : (⟨0, 0⟩ : Position) ≤ a := by
  rw [le_def]; simp only; omega

theorem not_lt {a b : Position} : ¬a < b ↔ b ≤ a := by rw [le_def, lt_def]; omega

theorem lt_after (p : Position) : p < p.after 1 := by
  rw [lt_def, after_line, after_col]; omega

theorem le_after (p : Position) (n : Nat) : p ≤ p.after n := by
  rw [le_def, after_line, after_col]; omega

theorem after_one_le {p q : Position} : p.after 1 ≤ q ↔ p < q := by
  rw [le_def, lt_def, after_line, after_col]; omega

theorem lt_after_one {p q : Position} : q < p.after 1 ↔ q < p ∨ q = p := by
  rw [Position.ext_iff, lt_def, lt_def, after_line, after_col]; omega

end Position

/-! ## Order and overlaps -/

namespace Span

/-- Each span ends at or behind its start and in front of all that follow. -/
def InOrder (spans : List Span) : Prop :=
  (∀ s ∈ spans, s.start ≤ s.stop) ∧ spans.Pairwise fun a b => a.stop < b.start

theorem InOrder.tail {s : Span} {spans : List Span} (h : InOrder (s :: spans)) : InOrder spans :=
  ⟨fun t ht => h.1 t (List.mem_cons_of_mem _ ht), (List.pairwise_cons.mp h.2).2⟩

theorem InOrder.starts {spans : List Span} (h : InOrder spans) :
    spans.Pairwise fun a b => a.start < b.start :=
  h.2.imp_of_mem fun ha _ hab => Position.lt_of_le_of_lt (h.1 _ ha) hab

def Apart (s t : Span) : Prop := ∀ p : Position, ¬(p ∈ s ∧ p ∈ t)

theorem Apart.symm {s t : Span} (h : s.Apart t) : t.Apart s := fun p hp => h p ⟨hp.2, hp.1⟩

theorem apart_of_lt {s t : Span} (h : s.stop < t.start) : s.Apart t := by
  rintro p ⟨hs, ht⟩
  exact Position.not_le.mpr (Position.lt_of_lt_of_le h ht.1) hs.2

theorem inOrder_of_isChain {spans : List Span} (hends : ∀ s ∈ spans, s.start ≤ s.stop)
    (hchain : spans.IsChain fun a b => a.stop < b.start) : InOrder spans := by
  refine ⟨hends, ?_⟩
  induction spans with
  | nil => exact .nil
  | cons s rest ih =>
    have hrest := ih (fun t ht => hends t (List.mem_cons_of_mem _ ht)) hchain.tail
    refine .cons (fun t ht => ?_) hrest
    cases rest with
    | nil => cases ht
    | cons next rest =>
      have hnext : s.stop < next.start := (List.isChain_cons_cons.mp hchain).1
      rcases List.mem_cons.mp ht with rfl | ht
      · exact hnext
      · have hle : next.start ≤ next.stop := hends next (by simp)
        exact Position.lt_trans (Position.lt_of_lt_of_le hnext hle)
          (List.rel_of_pairwise_cons hrest ht)

theorem InOrder.eq_of_mem {α : Type} {span : α → Span} {items : List α}
    (h : InOrder (items.map span)) {p : Position} {x y : α} (hx : x ∈ items) (hy : y ∈ items)
    (hpx : p ∈ span x) (hpy : p ∈ span y) : x = y := by
  have hapart : items.Pairwise fun a b => (span a).Apart (span b) :=
    (List.pairwise_map.mp h.2).imp apart_of_lt
  have : Std.Symm fun a b : α => (span a).Apart (span b) := ⟨fun _ _ => Apart.symm⟩
  by_contra hne
  exact hapart.forall hx hy hne p ⟨hpx, hpy⟩

theorem hasLine_of_mem {s : Span} {p : Position} (h : p ∈ s) : s.HasLine p.line := by
  obtain ⟨hstart, hstop⟩ := h
  rw [Position.le_def] at hstart hstop
  constructor <;> omega

/-! ## Nesting -/

theorem Within.trans {a b c : Span} (h : a.Within b) (k : b.Within c) : a.Within c :=
  ⟨Position.le_trans k.1 h.1, Position.le_trans h.2 k.2⟩

theorem Within.antisymm {a b : Span} (h : a.Within b) (k : b.Within a) : a = b :=
  Span.ext (Position.le_antisymm k.1 h.1) (Position.le_antisymm h.2 k.2)

theorem not_strictlyWithin_self (a : Span) : ¬a.StrictlyWithin a := fun h => h.1 rfl

theorem StrictlyWithin.trans {a b c : Span} (h : a.StrictlyWithin b) (k : b.StrictlyWithin c) :
    a.StrictlyWithin c := by
  refine ⟨?_, h.2.trans k.2⟩
  rintro rfl
  exact h.1 (h.2.antisymm k.2)

end Span

theorem isFront_start_le {α : Type} {span : α → Span} {items : List α}
    (h : Span.InOrder (items.map span)) (p : Position) :
    IsFront (fun item => decide ((span item).start ≤ p)) items := by
  have hstarts := List.pairwise_map.mp h.starts
  refine hstarts.imp fun hab hb => ?_
  simp only [decide_eq_true_eq] at hb ⊢
  exact Position.le_trans (Position.le_of_lt hab) hb

theorem findContaining_eq_find? {α : Type} {span : α → Span} {items : Array α}
    (h : Span.InOrder (items.toList.map span)) (p : Position) :
    findContaining span items p = items.toList.find? fun item => decide (p ∈ span item) := by
  have hfront := isFront_start_le h p
  unfold findContaining
  rw [lastInFront?_eq hfront]
  generalize hq : (fun item => decide ((span item).start ≤ p)) = q at hfront ⊢
  have hbehind : (items.toList.dropWhile q).find? (fun item => decide (p ∈ span item)) = none := by
    rw [List.find?_eq_none]
    intro x hx hp
    apply not_of_mem_dropWhile hfront hx
    subst hq
    simp only [decide_eq_true_eq] at hp ⊢
    exact hp.1
  conv => rhs; rw [← List.takeWhile_append_dropWhile (p := q) (l := items.toList)]
  rw [List.find?_append, hbehind, Option.or_none]
  cases hlast : (items.toList.takeWhile q).getLast? with
  | none => simp [List.getLast?_eq_none_iff.mp hlast]
  | some x =>
    obtain ⟨before, heq⟩ := List.getLast?_eq_some_iff.mp hlast
    -- Everything in front of the last item ends before that item starts.
    have hbefore : before.find? (fun item => decide (p ∈ span item)) = none := by
      rw [List.find?_eq_none]
      intro y hy hp
      have hsub : (before ++ [x]).Sublist items.toList := by
        rw [← heq]; exact List.takeWhile_sublist q
      have hxy : (span y).stop < (span x).start :=
        (List.pairwise_append.mp ((List.pairwise_map.mp h.2).sublist hsub)).2.2 y hy x (by simp)
      have hx : (span x).start ≤ p := by
        have hmem : x ∈ items.toList.takeWhile q := by rw [heq]; simp
        have := List.all_eq_true.mp List.all_takeWhile x hmem
        subst hq
        simpa using this
      simp only [decide_eq_true_eq] at hp
      exact Position.not_le.mpr (Position.lt_of_lt_of_le hxy hx) hp.2
    rw [heq, List.find?_append, hbefore, Option.none_or, Option.filter_some, List.find?_singleton]

theorem isSome_findContaining_iff {α : Type} {span : α → Span} {items : Array α}
    (h : Span.InOrder (items.toList.map span)) (p : Position) :
    (findContaining span items p).isSome = true ↔ ∃ item ∈ items.toList, p ∈ span item := by
  rw [findContaining_eq_find? h, List.find?_isSome]
  simp

theorem findContaining_eq_some_iff {α : Type} {span : α → Span} {items : Array α}
    (h : Span.InOrder (items.toList.map span)) {p : Position} {item : α} :
    findContaining span items p = some item ↔ item ∈ items.toList ∧ p ∈ span item := by
  rw [findContaining_eq_find? h]
  constructor
  · intro hfound
    exact ⟨List.mem_of_find?_eq_some hfound, by simpa using List.find?_some hfound⟩
  · rintro ⟨hitem, hp⟩
    cases hfound : items.toList.find? fun item => decide (p ∈ span item) with
    | none => exact absurd hp (by simpa using List.find?_eq_none.mp hfound item hitem)
    | some other =>
      have hother : p ∈ span other := by simpa using List.find?_some hfound
      rw [h.eq_of_mem (List.mem_of_find?_eq_some hfound) hitem hother hp]

/-- It is enough that each item ends in front of the next one: the item that holds the position is
found, and nothing is found where no item does. -/
theorem findContaining_of_isChain {α : Type} {span : α → Span} {items : Array α}
    (hends : ∀ item ∈ items.toList, (span item).start ≤ (span item).stop)
    (hchain : items.toList.IsChain fun a b => (span a).stop < (span b).start) (p : Position) :
    (findContaining span items p = items.toList.find? fun item => decide (p ∈ span item)) ∧
      (∀ item, findContaining span items p = some item ↔ item ∈ items.toList ∧ p ∈ span item) ∧
      (findContaining span items p = none ↔ ∀ item ∈ items.toList, p ∉ span item) := by
  have horder : Span.InOrder (items.toList.map span) := by
    apply Span.inOrder_of_isChain
    · exact List.forall_mem_map.mpr hends
    · exact (List.isChain_map span).mpr hchain
  refine ⟨findContaining_eq_find? horder p, fun item => findContaining_eq_some_iff horder, ?_⟩
  rw [findContaining_eq_find? horder, List.find?_eq_none]
  simp

def threeSpans : Array Span := #[.onLine 0 2 5, ⟨⟨1, 0⟩, ⟨3, 4⟩⟩, .onLine 3 5 5]

theorem findContaining_threeSpans :
    (∀ span ∈ threeSpans.toList, span.start ≤ span.stop) ∧
      (threeSpans.toList.IsChain fun a b => a.stop < b.start) ∧
      findContaining id threeSpans ⟨2, 100⟩ = some ⟨⟨1, 0⟩, ⟨3, 4⟩⟩ ∧
      findContaining id threeSpans ⟨1, 0⟩ = some ⟨⟨1, 0⟩, ⟨3, 4⟩⟩ ∧
      findContaining id threeSpans ⟨0, 6⟩ = none := by
  have hends : ∀ span ∈ threeSpans.toList, span.start ≤ span.stop := by decide
  have hchain : threeSpans.toList.IsChain fun a b => a.stop < b.start := by
    simp only [threeSpans, List.isChain_cons_cons, List.isChain_singleton, and_true]
    decide
  have hfound (p : Position) := @findContaining_of_isChain _ id threeSpans hends hchain p
  refine ⟨hends, hchain, ?_, ?_, ?_⟩
  · exact ((hfound ⟨2, 100⟩).2.1 _).mpr ⟨by decide, by decide⟩
  · exact ((hfound ⟨1, 0⟩).2.1 _).mpr ⟨by decide, by decide⟩
  · exact (hfound ⟨0, 6⟩).2.2.mpr (by decide)

end ScopeLint
