import Mathlib.Data.List.Induction
import ScopeLint.Outline.Nesting
import ScopeLint.Proofs.Span

/-!
# Containers

The container of a region is a smallest region that strictly contains it. More regions contain the
region than contain its container, so that no region is inside itself.
-/

namespace ScopeLint

namespace Region

/-! ## What is chosen -/

/-- One of the regions that strictly contain the span, none of which is strictly within it, and the
first of all with its span. -/
structure SmallestContainer (span : Span) (placed : List (Region × Nat)) (c : Region × Nat) :
    Prop where
  contains : span.StrictlyWithin c.1.span
  smallest : ∀ d ∈ placed, span.StrictlyWithin d.1.span → ¬d.1.span.StrictlyWithin c.1.span
  first : placed.find? (fun d => decide (d.1.span = c.1.span)) = some c

/-- What a pass over the regions has to say about the containers of the span. -/
def Chosen (span : Span) (placed : List (Region × Nat)) : Option (Region × Nat) → Prop
  | none => ∀ d ∈ placed, ¬span.StrictlyWithin d.1.span
  | some c => SmallestContainer span placed c

variable {span : Span} {placed : List (Region × Nat)} {chosen : Option (Region × Nat)}
  {c next : Region × Nat}

theorem find?_concat_of_none {same : Region × Nat → Bool} (hnone : ∀ d ∈ placed, same d = false)
    (hnext : same next = true) : (placed ++ [next]).find? same = some next := by
  have hplaced : placed.find? same = none := by simpa using hnone
  simp [List.find?_append, hplaced, hnext]

theorem Chosen.concat_none (h : Chosen span placed none)
    (hnext : span.StrictlyWithin next.1.span) : Chosen span (placed ++ [next]) (some next) where
  contains := hnext
  smallest := by
    intro d hd hspan
    rcases List.mem_append.mp hd with hd | hd
    · exact absurd hspan (h d hd)
    · obtain rfl := List.mem_singleton.mp hd
      exact Span.not_strictlyWithin_self _
  first := by
    apply find?_concat_of_none
    · intro d hd
      have hspan := h d hd
      apply decide_eq_false
      rintro heq
      exact hspan (heq ▸ hnext)
    · simp

theorem Chosen.concat_smaller (h : Chosen span placed (some c))
    (hnext : span.StrictlyWithin next.1.span) (hsmaller : next.1.span.StrictlyWithin c.1.span) :
    Chosen span (placed ++ [next]) (some next) where
  contains := hnext
  smallest := by
    intro d hd hspan hwithin
    rcases List.mem_append.mp hd with hd | hd
    · exact h.smallest d hd hspan (hwithin.trans hsmaller)
    · obtain rfl := List.mem_singleton.mp hd
      exact Span.not_strictlyWithin_self _ hwithin
  first := by
    apply find?_concat_of_none
    · intro d hd
      apply decide_eq_false
      intro heq
      exact h.smallest d hd (heq ▸ hnext) (heq ▸ hsmaller)
    · simp

theorem Chosen.concat_kept (h : Chosen span placed (some c))
    (hkept : span.StrictlyWithin next.1.span → ¬next.1.span.StrictlyWithin c.1.span) :
    Chosen span (placed ++ [next]) (some c) where
  contains := h.contains
  smallest := by
    intro d hd hspan
    rcases List.mem_append.mp hd with hd | hd
    · exact h.smallest d hd hspan
    · obtain rfl := List.mem_singleton.mp hd
      exact hkept hspan
  first := by simp [List.find?_append, h.first]

theorem Chosen.concat (h : Chosen span placed chosen) (next : Region × Nat) :
    Chosen span (placed ++ [next]) (betterContainer span chosen next) := by
  unfold betterContainer
  by_cases hnext : span.StrictlyWithin next.1.span
  · rw [if_pos hnext]
    cases chosen with
    | none => exact h.concat_none hnext
    | some c =>
      simp only
      split
      · rename_i hsmaller
        exact h.concat_smaller hnext hsmaller
      · rename_i hkept
        exact h.concat_kept fun _ => hkept
  · rw [if_neg hnext]
    cases chosen with
    | none =>
      intro d hd
      rcases List.mem_append.mp hd with hd | hd
      · exact h d hd
      · obtain rfl := List.mem_singleton.mp hd
        exact hnext
    | some c => exact h.concat_kept fun hspan => absurd hspan hnext

/-- A single pass ends at a smallest container, however the spans overlap. -/
theorem chosen_foldl (span : Span) (placed : List (Region × Nat)) :
    Chosen span placed (placed.foldl (betterContainer span) none) := by
  induction placed using List.reverseRecOn with
  | nil => simp [Chosen]
  | append_singleton placed next ih =>
    rw [List.foldl_append]
    exact ih.concat next

theorem container?_eq_some {regions : List Region} {r c : Region} {place : Nat}
    (h : container? regions.zipIdx r = some (c, place)) :
    regions[place]? = some c ∧ r.span.StrictlyWithin c.span ∧ r.kind ≠ .globalDefine := by
  unfold container? at h
  split at h
  · simp at h
  · rename_i hkind
    have hchosen := chosen_foldl r.span regions.zipIdx
    rw [h] at hchosen
    have hmem := List.mem_of_find?_eq_some hchosen.first
    exact ⟨List.mem_zipIdx_iff_getElem?.mp hmem, hchosen.contains, hkind⟩

/-! ## How many contain a region -/

theorem countP_lt_countP {α : Type} {p q : α → Bool} {items : List α}
    (h : ∀ x ∈ items, p x = true → q x = true) {x : α} (hx : x ∈ items) (hp : p x = false)
    (hq : q x = true) : items.countP p < items.countP q := by
  obtain ⟨front, back, rfl⟩ := List.append_of_mem hx
  have hfront : front.countP p ≤ front.countP q :=
    List.countP_mono_left fun y hy => h y (List.mem_append_left _ hy)
  have hback : back.countP p ≤ back.countP q :=
    List.countP_mono_left fun y hy => h y (List.mem_append_right _ (List.mem_cons_of_mem _ hy))
  rw [List.countP_append, List.countP_append, List.countP_cons_of_pos hq,
    List.countP_cons_of_neg (by simp [hp])]
  omega

def containersOf (regions : List Region) (span : Span) : Nat :=
  regions.countP fun other => decide (span.StrictlyWithin other.span)

theorem containersOf_lt_length {regions : List Region} {r : Region} (hr : r ∈ regions) :
    containersOf regions r.span < regions.length := by
  have hlt := countP_lt_countP (p := fun other => decide (r.span.StrictlyWithin other.span))
    (q := fun _ => true) (fun _ _ _ => rfl) hr
    (decide_eq_false (Span.not_strictlyWithin_self r.span)) rfl
  rw [List.countP_true] at hlt
  exact hlt

theorem containersOf_lt_containersOf {regions : List Region} {span : Span} {c : Region}
    (hc : c ∈ regions) (hspan : span.StrictlyWithin c.span) :
    containersOf regions c.span < containersOf regions span := by
  refine countP_lt_countP ?_ hc (decide_eq_false (Span.not_strictlyWithin_self c.span))
    (decide_eq_true hspan)
  intro other _ hother
  exact decide_eq_true (hspan.trans (of_decide_eq_true hother))

theorem exists_outermost {P : Region → Prop} {regions : List Region} {r c : Region}
    (hc : c ∈ regions) (hP : P c) (hinside : r.span.StrictlyWithin c.span) :
    ∃ top ∈ regions, P top ∧ r.span.StrictlyWithin top.span ∧
      ∀ d ∈ regions, P d → ¬top.span.StrictlyWithin d.span := by
  induction hrank : containersOf regions c.span using Nat.strongRecOn generalizing c with
  | ind rank ih =>
    by_cases houter : ∃ d ∈ regions, P d ∧ c.span.StrictlyWithin d.span
    · obtain ⟨d, hd, hPd, hcd⟩ := houter
      have hfewer := containersOf_lt_containersOf hd hcd
      exact ih _ (hrank ▸ hfewer) hd hPd (hinside.trans hcd) rfl
    · exact ⟨c, hc, hP, hinside, fun d hd hPd hcd => houter ⟨d, hd, hPd, hcd⟩⟩

/-! ## Kinds -/

theorem settledKind_cases (kind : Kind) (name : String) (container : Kind) :
    settledKind kind name container = kind ∧ kind ∉ [.anyFunction, .anyVariable] ∨
      kind ∈ [.anyFunction, .anyVariable] ∧ settledKind kind name container ∈
        [.classVariable, .functionVariable, .globalVariable, .freeFunction, .classFunction] := by
  unfold settledKind
  split
  · right
    split <;> simp
  · right
    split
    · simp
    · split <;> simp
    · split <;> simp
  · left
    simp_all

theorem settledKind_ne_any (kind : Kind) (name : String) (container : Kind) :
    settledKind kind name container ≠ .anyFunction ∧
      settledKind kind name container ≠ .anyVariable := by
  rcases settledKind_cases kind name container with ⟨hkept, hkind⟩ | ⟨-, hsettled⟩
  · rw [hkept]
    simpa using hkind
  · constructor <;> intro h <;> simp [h] at hsettled

theorem eq_globalDefine_of_settledKind {kind : Kind} {name : String} {container : Kind}
    (h : settledKind kind name container = .globalDefine) : kind = .globalDefine := by
  rcases settledKind_cases kind name container with ⟨hkept, -⟩ | ⟨-, hsettled⟩
  · exact hkept.symm.trans h
  · simp [h] at hsettled

end Region

end ScopeLint
