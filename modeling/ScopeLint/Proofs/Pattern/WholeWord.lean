import ScopeLint.Proofs.Pattern.Framed

/-!
# Whole words

A whole word has no word character on either side. All of them are found, each one once and from the
left: a match takes nothing but its word, and whole words of a line do not overlap.
-/

namespace ScopeLint

namespace Line

/-- The word stands at the column, with no word character on either side. -/
def HasWord (line word : Line) (col : Nat) : Prop :=
  ∃ front back, line = front ++ word ++ back ∧ col = size front ∧
    front.getLast?.any isWord = false ∧ back.head?.any isWord = false

def IsWhole (word : Line) : Prop := word ≠ [] ∧ ∀ x ∈ word, isWord x = true

instance (word : Line) : Decidable (IsWhole word) :=
  have : Decidable (∀ x ∈ word, isWord x = true) := List.decidableBAll (isWord · = true) word
  inferInstanceAs (Decidable (_ ∧ _))

theorem IsWhole.size_le {word back taken rest : Line} (hword : word.IsWhole)
    (h : word ++ back = taken ++ rest) (hne : taken ≠ [])
    (hlast : taken.getLast?.any isWord = false) : size word ≤ size taken := by
  rcases List.append_eq_append_iff.mp h with ⟨more, rfl, -⟩ | ⟨more, rfl, -⟩
  · rw [size_append]
    exact Nat.le_add_right _ _
  · have hmem := List.getLast_mem hne
    rw [List.getLast?_eq_some_getLast hne, Option.any_some,
      hword.2 _ (List.mem_append_left _ hmem)] at hlast
    cases hlast

end Line

/-! ## Places of a line -/

namespace Cursor

variable {c : Cursor} {before : Option Char} {col : Nat} {line taken rest : Line}

theorem forward?_append (h : c.rest = taken ++ rest) : c.forward? taken.length =
    some ⟨taken.getLast?.or c.before, c.col + Line.size taken, rest⟩ := by
  induction taken generalizing c with
  | nil =>
    obtain ⟨before, col, rest⟩ := c
    obtain rfl := h
    rfl
  | cons x taken ih =>
    rw [List.length_cons, forward?, h, List.cons_append]
    refine (ih rfl).trans ?_
    rw [Line.size, Nat.add_assoc, List.getLast?_cons]
    cases taken.getLast? <;> rfl

theorem mem_all_iff : c ∈ all line ↔
    ∃ front, line = front ++ c.rest ∧ c.col = Line.size front ∧ c.before = front.getLast? := by
  constructor
  · intro h
    obtain ⟨front, hline, hcol, hbefore⟩ := exists_front_of_mem_allFrom h
    exact ⟨front, hline, by rw [hcol, Nat.zero_add], by rw [hbefore, Option.or_none]⟩
  · rintro ⟨front, hline, hcol, hbefore⟩
    have hforward := forward?_append (c := ⟨none, 0, line⟩) hline
    rw [← getElem?_allFrom, Option.or_none, Nat.zero_add, ← hcol, ← hbefore] at hforward
    exact List.mem_of_getElem? hforward

theorem pairwise_allFrom (before : Option Char) (col : Nat) (line : Line) :
    (allFrom before col line).Pairwise fun c d => ∃ taken, taken ≠ [] ∧
      c.rest = taken ++ d.rest ∧ d.col = c.col + Line.size taken ∧ d.before = taken.getLast? := by
  induction line generalizing before col with
  | nil => exact List.pairwise_singleton _ _
  | cons x rest ih =>
    refine List.pairwise_cons.mpr ⟨fun d hd => ?_, ih _ _⟩
    obtain ⟨front, hrest, hcol, hbefore⟩ := exists_front_of_mem_allFrom hd
    refine ⟨x :: front, List.cons_ne_nil _ _, by rw [hrest]; rfl, ?_, ?_⟩
    · rw [hcol, Line.size, Nat.add_assoc]
    · rw [hbefore, List.getLast?_cons]
      cases front.getLast? <;> rfl

end Cursor

/-! ## Matches of a word -/

namespace Pattern

variable {w : String} {line : Line} {c : Cursor} {f : Found} {k : Further}

theorem lead_guarded (test : Cursor → Bool) :
    (guarded test).lead k c = if test c then k c else none := by
  rw [guarded, lead, Step.lead, Step.guarded]
  split <;> rfl

theorem lead_word : (word w).lead k c = if w.toList.isPrefixOf c.rest then
    (c.forward? w.toList.length).bind k else none := by
  rw [word, text, lead, Step.lead, Step.text]
  split <;> rfl

theorem lead_wholeWord : (wholeWord w).lead k c =
    if c.isWordEdge then
      if w.toList.isPrefixOf c.rest then
        (c.forward? w.toList.length).bind fun d => if d.isWordEdge then k d else none
      else none
    else none := by
  show wordEdge.lead ((word w).lead (wordEdge.lead k)) c = _
  rw [wordEdge, lead_guarded, lead_word]
  simp only [lead_guarded]

theorem isWordEdge_iff_of_next {x : Char} {rest : Line} (h : c.rest = x :: rest)
    (hx : isWord x = true) : c.isWordEdge = true ↔ c.before.any isWord = false := by
  rw [Cursor.isWordEdge, Cursor.next?, h, List.head?_cons, Option.any_some, hx]
  cases c.before.any isWord <;> decide

theorem isWordEdge_iff_of_before {x : Char} (h : c.before = some x) (hx : isWord x = true) :
    c.isWordEdge = true ↔ c.rest.head?.any isWord = false := by
  rw [Cursor.isWordEdge, Cursor.next?, h, Option.any_some, hx]
  cases c.rest.head?.any isWord <;> decide

theorem foundAt_wholeWord_iff (hw : Line.IsWhole w.toList) : (wholeWord w).foundAt c = some f ↔
    c.before.any isWord = false ∧
      (∃ back, c.rest = w.toList ++ back ∧ back.head?.any isWord = false) ∧
      f = ⟨c.col, c.col + Line.size w.toList, []⟩ := by
  rw [foundAt, lead_wholeWord]
  by_cases hnext : ∃ back, c.rest = w.toList ++ back
  · obtain ⟨back, hback⟩ := hnext
    obtain ⟨x, xs, hx⟩ := List.exists_cons_of_ne_nil hw.1
    have hlast := List.getLast_mem hw.1
    have hfirst : c.isWordEdge = true ↔ c.before.any isWord = false :=
      isWordEdge_iff_of_next (by rw [hback, hx, List.cons_append]) (hw.2 x (by simp [hx]))
    have hsecond := isWordEdge_iff_of_before
      (c := ⟨w.toList.getLast?.or c.before, c.col + Line.size w.toList, back⟩)
      (by rw [List.getLast?_eq_some_getLast hw.1, Option.some_or]) (hw.2 _ hlast)
    have hnext : w.toList.isPrefixOf c.rest = true :=
      List.isPrefixOf_iff_prefix.mpr ⟨back, hback.symm⟩
    simp only [hnext, if_true, Cursor.forward?_append hback, Option.bind_some, hfirst, hsecond,
      Option.map_eq_some_iff, Option.ite_none_right_eq_some, stopping, Option.some.injEq]
    rw [hback]
    constructor
    · rintro ⟨_, ⟨hbefore, hafter, rfl⟩, rfl⟩
      exact ⟨hbefore, ⟨back, rfl, hafter⟩, rfl⟩
    · rintro ⟨hbefore, ⟨back', hback', hafter⟩, rfl⟩
      rw [← List.append_cancel_left hback'] at hafter
      exact ⟨_, ⟨hbefore, hafter, rfl⟩, rfl⟩
  · have hnot : ¬w.toList.isPrefixOf c.rest = true := by
      intro h
      obtain ⟨back, hback⟩ := List.isPrefixOf_iff_prefix.mp h
      exact hnext ⟨back, hback.symm⟩
    rw [if_neg hnot, ite_self, Option.map_none]
    constructor
    · rintro ⟨⟩
    · rintro ⟨-, ⟨back, hback, -⟩, -⟩
      exact absurd ⟨back, hback⟩ hnext

/-- All whole words of a line are matched, and none in front of the end of the one before. -/
theorem findAll_wholeWord (hw : Line.IsWhole w.toList) (line : Line) :
    (wholeWord w).findAll line = (Cursor.all line).filterMap (wholeWord w).foundAt := by
  rw [findAll_eq]
  refine apart_eq_self (fun _ _ => Nat.zero_le _) ?_
  refine (Cursor.pairwise_allFrom none 0 line).filterMap _ ?_
  rintro c d ⟨taken, hne, htaken, hcol, hbefore⟩ g hg f hf
  obtain ⟨-, ⟨back, hback, -⟩, rfl⟩ := (foundAt_wholeWord_iff hw).mp hg
  obtain ⟨hedge, -, rfl⟩ := (foundAt_wholeWord_iff hw).mp hf
  rw [hbefore] at hedge
  have hsize := hw.size_le (hback.symm.trans htaken) hne hedge
  show c.col + Line.size w.toList ≤ d.col
  omega

theorem mem_findAll_wholeWord_iff (hw : Line.IsWhole w.toList) :
    f ∈ (wholeWord w).findAll line ↔
      line.HasWord w.toList f.start ∧ f = ⟨f.start, f.start + Line.size w.toList, []⟩ := by
  rw [findAll_wholeWord hw, List.mem_filterMap]
  simp only [foundAt_wholeWord_iff hw, Cursor.mem_all_iff]
  constructor
  · rintro ⟨c, ⟨front, hline, hcol, hbefore⟩, hedge, ⟨back, hback, hnext⟩, rfl⟩
    refine ⟨⟨front, back, ?_, hcol, hbefore ▸ hedge, hnext⟩, rfl⟩
    rw [hline, hback, List.append_assoc]
  · rintro ⟨⟨front, back, hline, hcol, hedge, hnext⟩, hf⟩
    refine ⟨⟨front.getLast?, f.start, w.toList ++ back⟩, ⟨front, ?_, hcol, rfl⟩, hedge,
      ⟨back, rfl, hnext⟩, hf⟩
    rw [hline, List.append_assoc]

theorem pairwise_findAll_wholeWord (hw : Line.IsWhole w.toList) (line : Line) :
    ((wholeWord w).findAll line).Pairwise fun g f => g.start < f.start := by
  rw [findAll_wholeWord hw]
  refine (Cursor.pairwise_allFrom none 0 line).filterMap _ ?_
  rintro c d ⟨taken, hne, -, hcol, -⟩ g hg f hf
  obtain ⟨-, -, rfl⟩ := (foundAt_wholeWord_iff hw).mp hg
  obtain ⟨-, -, rfl⟩ := (foundAt_wholeWord_iff hw).mp hf
  have hpos := Nat.pos_of_ne_zero (mt Line.size_eq_zero.mp hne)
  show c.col < d.col
  omega

end Pattern

end ScopeLint
