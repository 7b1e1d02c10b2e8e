import Mathlib.Data.List.Find
import ScopeLint.Pattern.Heads
import ScopeLint.Proofs.Pattern.Taken
import ScopeLint.Proofs.Text.Quote

/-!
# Plain steps

A plain step takes no quote and does not look behind the next one. All steps of the first lines are
plain but for those that take anything.
-/

namespace ScopeLint

/-! ## Steps -/

namespace Step

/-- A step that takes no quote, and as much at one place as at another with the same text up to the
next quote. -/
structure Plain (s : Step) : Prop where
  takesOnly : s.TakesOnly NotQuote
  eq : ∀ c d : Cursor, Option.Rel QuoteAlike c.before d.before → Line.SameToQuote c.rest d.rest →
    s c = s d

theorem plain_guarded {test : Cursor → Bool}
    (h : ∀ c d : Cursor, Option.Rel QuoteAlike c.before d.before →
      Line.SameToQuote c.rest d.rest → test c = test d) : (guarded test).Plain where
  takesOnly := takesOnly_guarded test
  eq c d hbefore hrest := by rw [guarded, guarded, h c d hbefore hrest]

theorem one_eq {test : Char → Bool} (h : QuoteBlind test) {c d : Cursor}
    (hrest : Line.SameToQuote c.rest d.rest) : one test c = one test d := by
  rw [one, one, Cursor.next?, Cursor.next?, h.any_eq hrest.head?]

theorem plain_one {test : Char → Bool} (h : NoQuotes test) : (one test).Plain where
  takesOnly := takesOnly_one fun _ => h.notQuote
  eq _ _ _ hrest := one_eq h.blind hrest

theorem plain_text {s : Line} (h : s.Unquoted) : (text s).Plain where
  takesOnly := takesOnly_text h
  eq c d _ hrest := by rw [text, text, hrest.isPrefixOf h]

theorem plain_textOf {ss : List Line} (h : ∀ s ∈ ss, s.Unquoted) : (textOf ss).Plain where
  takesOnly := takesOnly_textOf h
  eq c d _ hrest := by
    rw [textOf, textOf, List.find?_congr fun s hs => hrest.isPrefixOf (h s hs)]

theorem plain_orElse {first second : Step} (hfirst : first.Plain) (hsecond : second.Plain) :
    (orElse first second).Plain where
  takesOnly := takesOnly_orElse hfirst.takesOnly hsecond.takesOnly
  eq c d hbefore hrest := by
    rw [orElse, orElse, hfirst.eq c d hbefore hrest, hsecond.eq c d hbefore hrest]

end Step

/-! ## Around a place -/

namespace Cursor

variable {c d : Cursor}

theorem before_beq_colon (h : Option.Rel QuoteAlike c.before d.before) :
    (c.before == some ':') = (d.before == some ':') := by
  generalize c.before = x at h
  generalize d.before = y at h
  cases h with
  | some hxy => exact (NoQuotes.blind (by decide) : QuoteBlind (· == ':')).eq hxy
  | none => rfl

theorem prefix_of_wordAhead? {words : List Line} {w : Line} (h : c.wordAhead? words = some w) :
    w ∈ words ∧ w <+: c.rest := by
  have hw := List.find?_some h
  rw [Bool.and_eq_true] at hw
  exact ⟨List.mem_of_find?_eq_some h, List.isPrefixOf_iff_prefix.mp hw.1⟩

theorem wordAhead?_eq {words : List Line} (hwords : ∀ w ∈ words, w.Unquoted)
    (h : Line.SameToQuote c.rest d.rest) : c.wordAhead? words = d.wordAhead? words := by
  refine List.find?_congr fun w hw => ?_
  rw [h.isPrefixOf (hwords w hw)]
  cases hprefix : w.isPrefixOf d.rest with
  | false => rfl
  | true =>
    rw [← h.isPrefixOf (hwords w hw), List.isPrefixOf_iff_prefix] at hprefix
    have hhead := (h.drop (hwords w hw) hprefix).head?
    rw [NoQuotes.blind (by decide) |>.any_eq hhead]

end Cursor

namespace Pattern

theorem plain_nameStep : nameStep.Plain := by
  have htilde : (Step.one (· == '~')).Plain := Step.plain_one (by decide)
  refine Step.plain_orElse (Step.plain_one (by decide)) ⟨?_, ?_⟩
  · intro c n hn
    simp only at hn
    split at hn
    · exact htilde.takesOnly c n hn
    · cases hn
  · intro c d hbefore hrest
    simp only [Cursor.before_beq_colon hbefore, htilde.eq c d hbefore hrest]

theorem take_length_takeWhile (test : Char → Bool) (line : Line) :
    line.take (line.takeWhile test).length = line.takeWhile test :=
  (List.prefix_iff_eq_take.mp (List.takeWhile_prefix test)).symm

theorem notQuote_of_mem_takeWhile {test : Char → Bool} (h : NoQuotes test) {line : Line} {x : Char}
    (hx : x ∈ line.takeWhile test) : NotQuote x :=
  h.notQuote (List.all_eq_true.mp List.all_takeWhile x hx)

theorem plain_modifierStep : modifierStep.Plain where
  takesOnly := by
    intro c n hn x hx
    unfold modifierStep at hn
    split at hn
    · cases hn
    · rename_i w hw
      obtain ⟨hmem, rest, hrest⟩ := Cursor.prefix_of_wordAhead? hw
      split at hn
      · cases hn
      · obtain rfl := Option.some.inj hn
        rw [Cursor.blanksAfter, ← hrest, List.drop_left, List.take_length_add_append,
          take_length_takeWhile] at hx
        rcases List.mem_append.mp hx with hx | hx
        · exact (by decide : ∀ w ∈ typeModifiers, Line.Unquoted w) w hmem x hx
        · exact notQuote_of_mem_takeWhile (by decide) hx
  eq c d _ hrest := by
    have hwords : ∀ w ∈ typeModifiers, Line.Unquoted w := by decide
    rw [modifierStep, modifierStep, Cursor.wordAhead?_eq hwords hrest]
    cases hw : d.wordAhead? typeModifiers with
    | none => rfl
    | some w =>
      rw [← Cursor.wordAhead?_eq hwords hrest] at hw
      obtain ⟨hmem, hprefix⟩ := Cursor.prefix_of_wordAhead? hw
      have hblanks : c.blanksAfter w.length = d.blanksAfter w.length := by
        rw [Cursor.blanksAfter, Cursor.blanksAfter,
          (hrest.drop (hwords w hmem) hprefix).takeWhile (by decide)]
      simp only [hblanks]

theorem plain_boundsStep : boundsStep.Plain where
  takesOnly := by
    intro c n hn x hx
    unfold boundsStep at hn
    split at hn
    · rename_i rest hrest
      simp only at hn
      split at hn
      · rename_i hclosed
        obtain rfl := Option.some.inj hn
        rw [hrest, List.take_succ_cons, List.take_add_one, take_length_takeWhile,
          ← List.head?_drop, hclosed] at hx
        rcases List.mem_cons.mp hx with rfl | hx
        · decide
        · rcases List.mem_append.mp hx with hx | hx
          · exact notQuote_of_mem_takeWhile (by decide) hx
          · rw [List.mem_singleton.mp hx]
            decide
      · cases hn
    · cases hn
  eq c d _ hrest := by
    obtain ⟨_, _, x⟩ := c
    obtain ⟨_, _, y⟩ := d
    change Line.SameToQuote x y at hrest
    cases hrest with
    | nil => rfl
    | quote hq hr =>
      have hnone : ∀ {q : Char} {before : Option Char} {col : Nat} {rest : Line}, IsQuote q →
          boundsStep ⟨before, col, q :: rest⟩ = none := by
        rintro q _ _ _ (rfl | rfl) <;> rfl
      rw [hnone hq, hnone hr]
    | @char z xs ys hrest =>
      have hinside : xs.takeWhile isWord = ys.takeWhile isWord := hrest.takeWhile (by decide)
      have hbehind := hrest.drop (fun _ => notQuote_of_mem_takeWhile (by decide))
        (List.takeWhile_prefix isWord)
      by_cases hz : z = '['
      · rw [hz]
        simp only [boundsStep, ← hinside, hbehind.head?_eq_some_iff (c := ']') (by decide)]
      · have hnone : ∀ {col : Nat} {before : Option Char} {rest : Line},
            boundsStep ⟨before, col, z :: rest⟩ = none := by
          intro col before rest
          unfold boundsStep
          split
          · rename_i heq
            exact absurd (List.cons.inj heq).1 hz
          · rfl
        rw [hnone, hnone]

/-! ## Patterns -/

/-- A pattern with plain steps only. -/
def Plain (p : Pattern) : Prop := p.All Step.Plain

theorem All.imp {P Q : Step → Prop} (h : ∀ s, P s → Q s) {p : Pattern} (hp : p.All P) :
    p.All Q := by
  induction p with
  | step s => exact h s hp
  | loop s => exact h s hp
  | mark => trivial
  | seq _ _ ih₁ ih₂ => exact ⟨ih₁ hp.1, ih₂ hp.2⟩
  | alt _ _ ih₁ ih₂ => exact ⟨ih₁ hp.1, ih₂ hp.2⟩

variable {p q : Pattern} {test : Char → Bool}

theorem Plain.takesOnly (hp : p.Plain) : p.TakesOnly NotQuote := All.imp (fun _ => (·.takesOnly)) hp

theorem plain_lineStart : lineStart.Plain := by
  refine Step.plain_guarded fun c d hbefore _ => ?_
  rw [Cursor.isLineStart, Cursor.isLineStart]
  generalize c.before = x at hbefore
  generalize d.before = y at hbefore
  cases hbefore <;> rfl

theorem plain_lineEnd : lineEnd.Plain := Step.plain_guarded fun _ _ _ hrest => hrest.isEmpty

theorem plain_wordEdge : wordEdge.Plain := by
  refine Step.plain_guarded fun c d hbefore hrest => ?_
  have hword : QuoteBlind isWord := by decide
  rw [Cursor.isWordEdge, Cursor.isWordEdge, hword.any_eq hbefore, Cursor.next?, Cursor.next?,
    hword.any_eq hrest.head?]

theorem plain_empty : empty.Plain := Step.plain_guarded fun _ _ _ _ => rfl

theorem plain_one (h : NoQuotes test) : (one test).Plain := Step.plain_one h

theorem plain_run (h : NoQuotes test) : (run test).Plain := Step.plain_one h

theorem plain_run1 (h : NoQuotes test) : (run1 test).Plain := ⟨plain_one h, plain_run h⟩

theorem plain_blanks : blanks.Plain := plain_run (by decide)

theorem plain_blanks1 : blanks1.Plain := plain_run1 (by decide)

theorem plain_word {s : String} (h : Line.Unquoted s.toList) : (word s).Plain :=
  Step.plain_text h

theorem plain_words {ss : List String} (h : ∀ s ∈ ss, Line.Unquoted s.toList) :
    (words ss).Plain := by
  refine Step.plain_textOf fun s hs => ?_
  obtain ⟨s', hs', rfl⟩ := List.mem_map.mp hs
  exact h s' hs'

theorem plain_seq (hp : p.Plain) (hq : q.Plain) : (seq p q).Plain := ⟨hp, hq⟩

theorem plain_alt (hp : p.Plain) (hq : q.Plain) : (alt p q).Plain := ⟨hp, hq⟩

theorem plain_opt (hp : p.Plain) : (opt p).Plain := plain_alt hp plain_empty

theorem plain_capture {part : Part} (hp : p.Plain) : (capture part p).Plain :=
  ⟨trivial, hp, trivial⟩

end Pattern

end ScopeLint
