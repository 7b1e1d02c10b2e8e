import ScopeLint.Proofs.Pattern.Quotes
import ScopeLint.Proofs.Text.Literal

/-!
# Patterns and the contents of literals

A plain pattern does not go into a literal, and a part that takes anything goes through it. So the
first lines of classes, functions and variables are found at the same columns whatever stands in
closed literals; of a function that is so where no literal holds a closing parenthesis.
-/

namespace ScopeLint

variable {inside : Nat → Bool} {ok : Char → Prop}

/-! ## Places -/

namespace Cursor

/-- Places at the same column of lines that differ inside literals alone. -/
structure Alike (inside : Nat → Bool) (ok : Char → Prop) (c d : Cursor) : Prop where
  before : Option.Rel QuoteAlike c.before d.before
  col : c.col = d.col
  rest : Line.SameOutside inside ok c.col c.rest d.rest

/-- Places stay alike while no quote is taken. -/
theorem Alike.forward? {c d : Cursor} {n : Nat} (h : c.Alike inside ok d)
    (htaken : Line.Unquoted (c.rest.take n)) :
    Option.Rel (Alike inside ok) (c.forward? n) (d.forward? n) := by
  induction n generalizing c d with
  | zero => exact .some h
  | succ n ih =>
    obtain ⟨before, col, x⟩ := c
    obtain ⟨before', col', y⟩ := d
    obtain ⟨-, rfl, hrest⟩ := h
    cases hrest with
    | nil => exact .none
    | @char _ z xs ys _ hrest =>
      refine ih ⟨.some (.refl z), rfl, hrest⟩ fun x hx => htaken x ?_
      rw [List.take_succ_cons]
      exact List.mem_cons_of_mem _ hx
    | literal hq =>
      exact absurd hq (htaken _ (by rw [List.take_succ_cons]; exact List.mem_cons_self))

def InLiteral (inside : Nat → Bool) (ok : Char → Prop) (c : Cursor) (stop : Nat) (behind : Line) :
    Prop :=
  Line.InLiteral inside ok c.col c.rest stop behind

theorem InLiteral.forward? {c d : Cursor} {n stop : Nat} {behind : Line}
    (h : c.InLiteral inside ok stop behind) (htaken : Line.Unquoted (c.rest.take n))
    (hd : c.forward? n = some d) : d.InLiteral inside ok stop behind := by
  obtain ⟨taken, hlength, hrest, hcol⟩ := exists_taken hd
  rw [hrest, List.take_left' hlength] at htaken
  rw [InLiteral, hrest] at h
  rw [InLiteral, hcol]
  exact h.skip htaken

end Cursor

/-! ## Ways on from a place -/

namespace Further

/-- The way on does not depend on the contents of literals. -/
def Blind (inside : Nat → Bool) (ok : Char → Prop) (k : Further) : Prop :=
  ∀ c d : Cursor, c.Alike inside ok d → k c = k d

/-- There is no way on from inside a literal. -/
def NoneInside (inside : Nat → Bool) (ok : Char → Prop) (k : Further) : Prop :=
  ∀ (c : Cursor) (stop : Nat) (behind : Line), c.InLiteral inside ok stop behind → k c = none

/-- The way on stays outside literals and does not depend on what they say. -/
structure Outside (inside : Nat → Bool) (ok : Char → Prop) (k : Further) : Prop where
  blind : k.Blind inside ok
  noneInside : k.NoneInside inside ok

/-- From inside a literal the way on depends on what is behind it alone. -/
def Level (inside : Nat → Bool) (ok : Char → Prop) (k : Further) : Prop :=
  ∀ (c d : Cursor) (stop : Nat) (behind behind' : Line), c.InLiteral inside ok stop behind →
    d.InLiteral inside ok stop behind' → Line.SameOutside inside ok stop behind behind' → k c = k d

end Further

open Further

/-! ## Plain patterns -/

namespace Step

variable {s : Step} {k : Further}

theorem Plain.lead_blind (hs : s.Plain) (hk : k.Blind inside ok) : (s.lead k).Blind inside ok := by
  intro c d h
  rw [lead, lead, ← hs.eq c d h.before h.rest.toQuote]
  cases hn : s c with
  | none => rfl
  | some n =>
    have hforward := h.forward? (hs.takesOnly c n hn)
    simp only [Option.bind_some]
    generalize c.forward? n = c' at hforward ⊢
    generalize d.forward? n = d' at hforward ⊢
    cases hforward with
    | none => rfl
    | some halike => exact hk _ _ halike

theorem Plain.leadAgain_blind (hs : s.Plain) (hk : k.Blind inside ok) :
    Blind inside ok (s.leadAgain k) := by
  intro c d h
  have hsame := hs.eq c d h.before h.rest.toQuote
  fun_induction s.leadAgain k c generalizing d with
  | case1 c hn | case2 c hn =>
    rw [hk c d h, leadAgain_stay]
    intro n d' hd
    rw [← hsame, hn] at hd
    cases hd
  | case3 c n hn hnone =>
    have hforward := h.forward? (hs.takesOnly c _ hn)
    rw [hnone] at hforward
    rw [hk c d h, leadAgain_stay]
    intro n' d' hd hd'
    rw [← hsame, hn] at hd
    obtain rfl : n = n' := by simpa using hd
    rw [hd'] at hforward
    cases hforward
  | case4 c n hn c' hc' ih =>
    have hforward := h.forward? (hs.takesOnly c _ hn)
    rw [hc'] at hforward
    cases hd' : d.forward? (n + 1) with
    | none =>
      rw [hd'] at hforward
      cases hforward
    | some d' =>
      rw [hd'] at hforward
      cases hforward with
      | some halike =>
        rw [leadAgain_move (hsame.symm.trans hn) hd', hk c d h,
          ih _ halike (hs.eq _ _ halike.before halike.rest.toQuote)]

theorem Plain.lead_noneInside (hs : s.Plain) (hk : k.NoneInside inside ok) :
    (s.lead k).NoneInside inside ok := by
  intro c stop behind h
  rw [lead]
  cases hn : s c with
  | none => rfl
  | some n =>
    rw [Option.bind_some]
    cases hd : c.forward? n with
    | none => rfl
    | some d => exact hk d stop behind (h.forward? (hs.takesOnly c n hn) hd)

theorem Plain.leadAgain_noneInside (hs : s.Plain) (hk : k.NoneInside inside ok) :
    NoneInside inside ok (s.leadAgain k) := by
  intro c stop behind h
  fun_induction s.leadAgain k c with
  | case1 | case2 | case3 => exact hk _ stop behind h
  | case4 c n hn d hd ih =>
    rw [ih (h.forward? (hs.takesOnly c _ hn) hd), hk c stop behind h]
    rfl

end Step

namespace Pattern

variable {p : Pattern} {k : Further}

theorem Plain.lead_blind (hp : p.Plain) (hk : k.Blind inside ok) : (p.lead k).Blind inside ok := by
  induction p generalizing k with
  | step s => exact Step.Plain.lead_blind hp hk
  | loop s => exact Step.Plain.leadAgain_blind hp hk
  | mark m =>
    intro c d h
    simp only [lead, hk c d h, h.col]
  | seq _ _ ih₁ ih₂ => exact ih₁ hp.1 (ih₂ hp.2 hk)
  | alt _ _ ih₁ ih₂ =>
    intro c d h
    simp only [lead, ih₁ hp.1 hk c d h, ih₂ hp.2 hk c d h]

theorem Plain.lead_noneInside (hp : p.Plain) (hk : k.NoneInside inside ok) :
    (p.lead k).NoneInside inside ok := by
  induction p generalizing k with
  | step s => exact Step.Plain.lead_noneInside hp hk
  | loop s => exact Step.Plain.leadAgain_noneInside hp hk
  | mark m =>
    intro c stop behind h
    simp only [lead, hk c stop behind h, Option.map_none]
  | seq _ _ ih₁ ih₂ => exact ih₁ hp.1 (ih₂ hp.2 hk)
  | alt _ _ ih₁ ih₂ =>
    intro c stop behind h
    simp only [lead, ih₁ hp.1 hk c stop behind h, ih₂ hp.2 hk c stop behind h, Option.or_none]

theorem Plain.lead_outside (hp : p.Plain) (hk : k.Outside inside ok) :
    (p.lead k).Outside inside ok :=
  ⟨hp.lead_blind hk.blind, hp.lead_noneInside hk.noneInside⟩

theorem stopping_blind : stopping.Blind inside ok := by
  intro c d h
  rw [stopping, stopping, h.col]

theorem lineEnd_outside : (lineEnd.lead stopping).Outside inside ok where
  blind := plain_lineEnd.lead_blind stopping_blind
  noneInside := by
    rintro ⟨before, col, rest⟩ stop behind h
    change Line.InLiteral inside ok col rest stop behind at h
    cases h <;> rfl

/-! ## Anything -/

/-- Literals go on to their ends on one line. -/
def NoFeed (ok : Char → Prop) : Prop := ∀ x, ok x → x ≠ '\n'

theorem anything_move {before : Option Char} {col : Nat} {x : Char} {rest : Line} (hx : x ≠ '\n') :
    anything.lead k ⟨before, col, x :: rest⟩ =
      (anything.lead k ⟨some x, col + x.utf8Size, rest⟩).or (k ⟨before, col, x :: rest⟩) := by
  refine Step.leadAgain_move (n := 0) ?_ rfl
  simp [Step.one, Cursor.next?, hx]

theorem anything_stay {before : Option Char} {col : Nat} {rest : Line}
    (h : rest.head?.all (· == '\n') = true) :
    anything.lead k ⟨before, col, rest⟩ = k ⟨before, col, rest⟩ := by
  refine Step.leadAgain_stay fun n d hn hd => ?_
  cases rest with
  | nil => cases hd
  | cons x rest =>
    obtain rfl : x = '\n' := by simpa using h
    cases hn

theorem ne_feed_of_isQuote {q : Char} (hq : IsQuote q) : q ≠ '\n' := by
  rcases hq with rfl | rfl <;> decide

/-- What takes anything goes through a literal that there is no way on from. -/
theorem anything_through (hok : NoFeed ok) (hk : k.NoneInside inside ok) {c : Cursor} {stop : Nat}
    {behind : Line} (h : c.InLiteral inside ok stop behind) :
    ∃ q, IsQuote q ∧ anything.lead k c = anything.lead k ⟨some q, stop, behind⟩ := by
  obtain ⟨before, col, line⟩ := c
  change Line.InLiteral inside ok col line stop behind at h
  induction h generalizing before with
  | @last col q behind hq hin =>
    have hnone : k ⟨before, col, q :: behind⟩ = none := hk _ _ behind (.last hq hin)
    exact ⟨q, hq, by
      rw [anything_move (ne_feed_of_isQuote hq), hnone, Option.or_none,
        Line.utf8Size_of_isQuote hq]⟩
  | @next col stop x rest behind hx hin more ih =>
    have hnone : k ⟨before, col, x :: rest⟩ = none := hk _ _ behind (.next hx hin more)
    obtain ⟨q, hq, hlead⟩ := ih (some x)
    exact ⟨q, hq, by rw [anything_move (hok x hx), hnone, Option.or_none, hlead]⟩

theorem anything_blind (hok : NoFeed ok) (hk : k.Outside inside ok) :
    (anything.lead k).Blind inside ok := by
  rintro ⟨before, col, x⟩ ⟨before', _, y⟩ ⟨hbefore, rfl, hrest⟩
  change Option.Rel QuoteAlike before before' at hbefore
  change Line.SameOutside inside ok col x y at hrest
  induction hrest generalizing before before' with
  | nil =>
    rw [anything_stay rfl, anything_stay rfl]
    exact hk.blind _ _ ⟨hbefore, rfl, .nil⟩
  | @char col x xs ys hout hrest ih =>
    have hhere := hk.blind ⟨before, col, x :: xs⟩ ⟨before', col, x :: ys⟩
      ⟨hbefore, rfl, .char hout hrest⟩
    by_cases hx : x = '\n'
    · rw [anything_stay (by simp [hx]), anything_stay (by simp [hx]), hhere]
    · rw [anything_move hx, anything_move hx, hhere, ih _ _ (.some (.refl x))]
  | literal _ _ left right _ _ _ ih =>
    obtain ⟨q, hq, hleft⟩ := anything_through hok hk.noneInside (c := ⟨before, _, _⟩) left
    obtain ⟨r, hr, hright⟩ := anything_through hok hk.noneInside (c := ⟨before', _, _⟩) right
    rw [hleft, hright, ih _ _ (.some (.inr ⟨hq, hr⟩))]

theorem anything_level (hok : NoFeed ok) (hk : k.Outside inside ok) :
    (anything.lead k).Level inside ok := by
  intro c d stop behind behind' hc hd hrest
  obtain ⟨q, hq, hleft⟩ := anything_through hok hk.noneInside hc
  obtain ⟨r, hr, hright⟩ := anything_through hok hk.noneInside hd
  rw [hleft, hright]
  exact anything_blind hok hk _ _ ⟨.some (.inr ⟨hq, hr⟩), rfl, hrest⟩

/-! ## One character -/

theorem lead_one {test : Char → Bool} {before : Option Char} {col : Nat} {x : Char} {rest : Line} :
    (one test).lead k ⟨before, col, x :: rest⟩ =
      if test x then k ⟨some x, col + x.utf8Size, rest⟩ else none := by
  cases hx : test x <;> simp [one, lead, Step.lead, Step.one, Cursor.next?, hx, Cursor.forward?]

theorem one_noneInside {test : Char → Bool} (hquotes : NoQuotes test)
    (hok : ∀ x, ok x → test x = false) : ((one test).lead k).NoneInside inside ok := by
  rintro ⟨before, col, line⟩ stop behind h
  change Line.InLiteral inside ok col line stop behind at h
  have hnone {x : Char} {rest : Line} (hx : test x = false) :
      (one test).lead k ⟨before, col, x :: rest⟩ = none := by
    rw [lead_one, hx]
    rfl
  cases h with
  | last hq => exact hnone (hquotes.eq_false hq)
  | next hx => exact hnone (hok _ hx)

/-- One character may be the opening quote of a literal, where it does not matter how it goes on
from inside. -/
theorem one_blind {test : Char → Bool} (htest : QuoteBlind test) (hblind : k.Blind inside ok)
    (hlevel : k.Level inside ok) : ((one test).lead k).Blind inside ok := by
  rintro ⟨before, col, x⟩ ⟨before', _, y⟩ ⟨hbefore, rfl, hrest⟩
  change Line.SameOutside inside ok col x y at hrest
  cases hrest with
  | nil => rfl
  | @char _ z xs ys _ hrest =>
    rw [lead_one, lead_one]
    split
    · exact hblind _ _ ⟨.some (.refl z), rfl, hrest⟩
    · rfl
  | @literal _ stop q r xs ys behind behind' hq hr left right _ _ hrest =>
    have hqSize := Line.utf8Size_of_isQuote hq
    have hrSize := Line.utf8Size_of_isQuote hr
    rw [lead_one, lead_one, htest.eq (.inr ⟨hq, hr⟩)]
    split
    · -- Both literals are their opening quote alone, or neither is.
      cases left with
      | last =>
        cases right with
        | last =>
          rw [hqSize, hrSize]
          exact hblind _ _ ⟨.some (.inr ⟨hq, hr⟩), rfl, hrest⟩
        | next _ _ more =>
          have := more.lt
          omega
      | next _ _ moreLeft =>
        cases right with
        | last =>
          have := moreLeft.lt
          omega
        | next _ _ moreRight => exact hlevel _ _ stop behind behind' moreLeft moreRight hrest
    · rfl

/-! ## First lines -/

theorem alt_blind {preferred other : Pattern} (hpreferred : (preferred.lead k).Blind inside ok)
    (hother : (other.lead k).Blind inside ok) : ((alt preferred other).lead k).Blind inside ok := by
  intro c d h
  simp only [lead, hpreferred c d h, hother c d h]

theorem opt_blind (hk : k.Outside inside ok)
    (hp : k.Outside inside ok → (p.lead k).Blind inside ok) : ((opt p).lead k).Blind inside ok :=
  alt_blind (hp hk) (plain_empty.lead_blind hk.blind)

theorem bracketed_blind (hok : NoFeed ok) {opening closing : Char}
    (hopening : NoQuotes (· == opening)) (hclosing : NoQuotes (· == closing))
    (hk : k.Outside inside ok) :
    ((inOrder [char opening, anything, char closing]).lead k).Blind inside ok :=
  (plain_one hopening).lead_blind (anything_blind hok ((plain_one hclosing).lead_outside hk))

theorem matchLine_eq_of_blind {x y : Line} (hp : (p.lead stopping).Blind inside ok)
    (h : Line.SameOutside inside ok 0 x y) : p.matchLine x = p.matchLine y := by
  rw [matchLine_eq, matchLine_eq, foundAt, foundAt, hp ⟨none, 0, x⟩ ⟨none, 0, y⟩ ⟨.none, rfl, h⟩]

theorem classHead_blind (hok : NoFeed ok) : (classHead.lead stopping).Blind inside ok := by
  refine plain_lineStart.lead_blind (plain_blanks.lead_blind (opt_blind ?_ fun hback => ?_))
  · refine (plain_capture (plain_words (by decide))).lead_outside ?_
    refine plain_wordEdge.lead_outside (plain_blanks.lead_outside ?_)
    refine (plain_capture (plain_run (by decide))).lead_outside (plain_blanks.lead_outside ?_)
    refine (plain_opt (plain_seq (plain_word (by decide)) plain_blanks)).lead_outside ?_
    refine (plain_opt (plain_one (by decide))).lead_outside ?_
    refine (plain_run (by decide)).lead_outside ?_
    refine (plain_opt (plain_one (by decide))).lead_outside ?_
    exact plain_blanks.lead_outside lineEnd_outside
  · -- The parameters of a template: anything between angle brackets.
    refine (plain_word (by decide)).lead_blind (plain_blanks.lead_blind ?_)
    refine (plain_one (by decide)).lead_blind (anything_blind hok ?_)
    exact (plain_one (by decide)).lead_outside (plain_blanks.lead_outside hback)

theorem qualifiers_plain : qualifiers.Plain := by
  have hwords : (Step.orElse (.one isWord) (.text "::".toList)).Plain :=
    Step.plain_orElse (Step.plain_one (by decide)) (Step.plain_text (by decide))
  exact plain_opt ⟨hwords, Step.plain_guarded fun c d hbefore _ => Cursor.before_beq_colon hbefore⟩

theorem variableHead_blind (hok : NoFeed ok) : (variableHead.lead stopping).Blind inside ok := by
  have hstatement : (guarded fun c => (c.wordAhead? statementWords).isNone).Plain :=
    Step.plain_guarded fun _ _ _ hrest => by rw [Cursor.wordAhead?_eq (by decide) hrest]
  have hmodifiers : (loop modifierStep).Plain := plain_modifierStep
  have hbounds : (loop boundsStep).Plain := plain_boundsStep
  refine plain_lineStart.lead_blind (plain_blanks.lead_blind (hstatement.lead_blind ?_))
  refine hmodifiers.lead_blind (qualifiers_plain.lead_blind ?_)
  refine (plain_run1 (by decide)).lead_blind ?_
  refine (plain_opt (plain_seq (plain_one (by decide))
    (plain_seq (plain_run (by decide)) (plain_one (by decide))))).lead_blind ?_
  refine (plain_alt (plain_seq plain_blanks (plain_seq (plain_run1 (by decide)) plain_blanks))
    plain_blanks1).lead_blind ?_
  refine (plain_capture (plain_run1 (by decide))).lead_blind (hbounds.lead_blind ?_)
  refine plain_blanks.lead_blind (opt_blind ?_ fun hback => ?_)
  · refine plain_blanks.lead_outside ((plain_one (by decide)).lead_outside ?_)
    exact plain_blanks.lead_outside lineEnd_outside
  · -- What the variable starts with, in one of three forms.
    refine alt_blind (bracketed_blind hok (by decide) (by decide) hback) ?_
    refine alt_blind (bracketed_blind hok (by decide) (by decide) hback) ?_
    refine (plain_one (by decide)).lead_blind (one_blind (by decide) ?_ ?_)
    · exact anything_blind hok hback
    · exact anything_level hok hback

theorem functionHead_blind (hok : NoFeed ok) (hclosing : ∀ x, ok x → x ≠ ')') :
    (functionHead.lead stopping).Blind inside ok := by
  have hstart : (guarded (·.before.all isBlank)).Plain :=
    Step.plain_guarded fun _ _ hbefore _ => (Line.noQuotes_isBlank.blind).all_eq hbefore
  have hend : (anything.lead (lineEnd.lead stopping)).Blind inside ok :=
    anything_blind hok lineEnd_outside
  refine plain_lineStart.lead_blind ((plain_run (by decide)).lead_blind (hstart.lead_blind ?_))
  refine (plain_capture functionName_plain).lead_blind (plain_blanks.lead_blind ?_)
  refine (plain_one (by decide)).lead_blind (anything_blind hok ⟨?_, ?_⟩)
  · exact (plain_one (by decide)).lead_blind hend
  · exact one_noneInside (by decide) fun x hx => by simpa using hclosing x hx

end Pattern

end ScopeLint
