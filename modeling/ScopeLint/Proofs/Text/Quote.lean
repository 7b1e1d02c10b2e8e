import Mathlib.Data.Option.Basic
import ScopeLint.Proofs.Text.Line

/-!
# Lines up to their first quote

Where two lines are the same up to the first quote, tests that a quote does not pass find the same
in both.
-/

namespace ScopeLint

def IsQuote (c : Char) : Prop := c = '\x22' ∨ c = '\x27'

instance (c : Char) : Decidable (IsQuote c) := inferInstanceAs (Decidable (_ ∨ _))

def NotQuote (c : Char) : Prop := ¬IsQuote c

instance (c : Char) : Decidable (NotQuote c) := inferInstanceAs (Decidable (¬_))

def NoQuotes (test : Char → Bool) : Prop := test '\x22' = false ∧ test '\x27' = false

instance (test : Char → Bool) : Decidable (NoQuotes test) := inferInstanceAs (Decidable (_ ∧ _))

variable {test : Char → Bool}

theorem NoQuotes.eq_false (h : NoQuotes test) {q : Char} (hq : IsQuote q) : test q = false := by
  rcases hq with rfl | rfl
  · exact h.1
  · exact h.2

theorem NoQuotes.notQuote (h : NoQuotes test) {c : Char} (hc : test c = true) : NotQuote c := by
  intro hq
  rw [h.eq_false hq] at hc
  cases hc

/-! ## Characters -/

def QuoteAlike (x y : Char) : Prop := x = y ∨ IsQuote x ∧ IsQuote y

theorem QuoteAlike.refl (x : Char) : QuoteAlike x x := .inl rfl

def QuoteBlind (test : Char → Bool) : Prop := test '\x22' = test '\x27'

instance (test : Char → Bool) : Decidable (QuoteBlind test) := inferInstanceAs (Decidable (_ = _))

theorem NoQuotes.blind (h : NoQuotes test) : QuoteBlind test := h.1.trans h.2.symm

theorem QuoteBlind.eq (h : QuoteBlind test) {x y : Char} (hxy : QuoteAlike x y) :
    test x = test y := by
  rcases hxy with rfl | ⟨rfl | rfl, rfl | rfl⟩
  · rfl
  · rfl
  · exact h
  · exact h.symm
  · rfl

theorem QuoteBlind.any_eq (h : QuoteBlind test) {x y : Option Char}
    (hxy : Option.Rel QuoteAlike x y) : x.any test = y.any test := by
  cases hxy with
  | some hxy => exact h.eq hxy
  | none => rfl

theorem QuoteBlind.all_eq (h : QuoteBlind test) {x y : Option Char}
    (hxy : Option.Rel QuoteAlike x y) : x.all test = y.all test := by
  cases hxy with
  | some hxy => exact h.eq hxy
  | none => rfl

/-! ## Lines -/

namespace Line

def Unquoted (line : Line) : Prop := ∀ c ∈ line, NotQuote c

instance (line : Line) : Decidable line.Unquoted := List.decidableBAll NotQuote line

/-- The lines are the same up to the first quote. -/
inductive SameToQuote : Line → Line → Prop where
  | nil : SameToQuote [] []
  | quote {q r : Char} {xs ys : Line} (hq : IsQuote q) (hr : IsQuote r) :
    SameToQuote (q :: xs) (r :: ys)
  | char {x : Char} {xs ys : Line} (rest : SameToQuote xs ys) : SameToQuote (x :: xs) (x :: ys)

namespace SameToQuote

variable {x y : Line}

theorem head? (h : SameToQuote x y) : Option.Rel QuoteAlike x.head? y.head? := by
  cases h with
  | nil => exact .none
  | quote hq hr => exact .some (.inr ⟨hq, hr⟩)
  | char => exact .some (.refl _)

theorem head?_eq_some_iff (h : SameToQuote x y) {c : Char} (hc : NotQuote c) :
    x.head? = some c ↔ y.head? = some c := by
  cases h with
  | nil => rfl
  | quote hq hr =>
    simp only [List.head?_cons, Option.some.injEq]
    constructor
    · rintro rfl
      exact absurd hq hc
    · rintro rfl
      exact absurd hr hc
  | char => rfl

theorem isEmpty (h : SameToQuote x y) : x.isEmpty = y.isEmpty := by
  cases h <;> rfl

theorem takeWhile (h : SameToQuote x y) (htest : NoQuotes test) :
    x.takeWhile test = y.takeWhile test := by
  induction h with
  | nil => rfl
  | quote hq hr =>
    rw [List.takeWhile_cons_of_neg (by simp [htest.eq_false hq]),
      List.takeWhile_cons_of_neg (by simp [htest.eq_false hr])]
  | char _ ih => rw [List.takeWhile_cons, List.takeWhile_cons, ih]

theorem dropWhile (h : SameToQuote x y) (htest : NoQuotes test) :
    SameToQuote (x.dropWhile test) (y.dropWhile test) := by
  induction h with
  | nil => exact .nil
  | quote hq hr =>
    rw [List.dropWhile_cons_of_neg (by simp [htest.eq_false hq]),
      List.dropWhile_cons_of_neg (by simp [htest.eq_false hr])]
    exact .quote hq hr
  | char rest ih =>
    rw [List.dropWhile_cons, List.dropWhile_cons]
    split
    · exact ih
    · exact .char rest

theorem isPrefixOf (h : SameToQuote x y) {w : Line} (hw : w.Unquoted) :
    w.isPrefixOf x = w.isPrefixOf y := by
  induction h generalizing w with
  | nil => rfl
  | quote hq hr =>
    cases w with
    | nil => rfl
    | cons c w =>
      have hc := hw c List.mem_cons_self
      rw [List.isPrefixOf, List.isPrefixOf, beq_false_of_ne, beq_false_of_ne]
      · rfl
      · rintro rfl
        exact hc hr
      · rintro rfl
        exact hc hq
  | char _ ih =>
    cases w with
    | nil => rfl
    | cons c w =>
      rw [List.isPrefixOf, List.isPrefixOf, ih fun c hc => hw c (List.mem_cons_of_mem _ hc)]

theorem drop (h : SameToQuote x y) {w : Line} (hw : w.Unquoted) (hstart : w <+: x) :
    SameToQuote (x.drop w.length) (y.drop w.length) := by
  induction h generalizing w with
  | nil =>
    obtain rfl := List.prefix_nil.mp hstart
    exact .nil
  | quote hq hr =>
    cases w with
    | nil => exact .quote hq hr
    | cons c w =>
      obtain ⟨rfl, -⟩ := List.cons_prefix_cons.mp hstart
      exact absurd hq (hw c List.mem_cons_self)
  | char rest ih =>
    cases w with
    | nil => exact .char rest
    | cons c w =>
      obtain ⟨-, hstart⟩ := List.cons_prefix_cons.mp hstart
      exact ih (fun c hc => hw c (List.mem_cons_of_mem _ hc)) hstart

end SameToQuote

end Line

end ScopeLint
