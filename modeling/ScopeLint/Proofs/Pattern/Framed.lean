import ScopeLint.Proofs.Pattern.Literal

/-!
# Words between literals

A word of a conditional or of a loop is found with the characters around it. Such a match inside a
literal may take the quotes at both ends and nothing else, so it keeps no match outside from being
found.
-/

namespace ScopeLint.Pattern

/-! ## Words in a frame -/

/-- One of the words, with a character on either side or an end of the line. -/
def framed (before after : Char → Bool) (ss : List String) : Pattern :=
  inOrder [alt lineStart (one before), capture .keyword (words ss), alt (one after) lineEnd]

theorem loopWord_eq : loopWord = framed (fun c => !isWord c) (fun c => !isWord c) ["while", "do"] :=
  rfl

variable {before after : Char → Bool} {ss : List String}

def AtMostOne (ok : Char → Bool) (edge : Prop) (taken : Line) : Prop :=
  taken = [] ∧ edge ∨ ∃ x, taken = [x] ∧ ok x = true

theorem Path.exists_atMostOne {test : Char → Bool} {edge : Cursor → Bool} {p q : Pattern}
    {c d : Cursor} {ms : List (Mark × Nat)} (h : Path (alt p q) c d ms)
    (hpq : p = one test ∧ q = guarded edge ∨ p = guarded edge ∧ q = one test) :
    ∃ taken, AtMostOne test (edge c = true) taken ∧ c.rest = taken ++ d.rest ∧
      d.col = c.col + Line.size taken ∧ ms = [] := by
  have htaken : Path (one test) c d ms ∨ Path (guarded edge) c d ms := by
    rcases hpq with ⟨rfl, rfl⟩ | ⟨rfl, rfl⟩ <;> cases h <;> tauto
  rcases htaken with h | h
  · obtain ⟨x, hx, hcol, htest, rfl⟩ := h.exists_one
    exact ⟨[x], .inr ⟨x, rfl, htest⟩, hx, hcol, rfl⟩
  · obtain ⟨rfl, hedge, rfl⟩ := h.eq_of_guarded
    exact ⟨[], .inl ⟨rfl, hedge⟩, rfl, rfl, rfl⟩

theorem exists_framed {c : Cursor} {f : Found} (h : (framed before after ss).foundAt c = some f) :
    ∃ front w back rest, w ∈ ss ∧ AtMostOne before (c.before = none) front ∧
      AtMostOne after (rest = []) back ∧ c.rest = front ++ (w.toList ++ (back ++ rest)) ∧ f.start = c.col ∧
      f.part? .keyword = some ⟨c.col + Line.size front,
        c.col + Line.size front + Line.size w.toList⟩ ∧
      f.stop = c.col + Line.size front + Line.size w.toList + Line.size back := by
  obtain ⟨d, hpath, hstart, hstop⟩ := path_of_foundAt h
  generalize hmarks : f.marks = ms at hpath
  cases hpath with
  | seq hfirst hpath =>
  cases hpath with
  | seq hkeyword hlast =>
    obtain ⟨front, hfront, hfrontRest, hfrontCol, rfl⟩ := hfirst.exists_atMostOne (.inr ⟨rfl, rfl⟩)
    obtain ⟨back, hback, hbackRest, hbackCol, rfl⟩ := hlast.exists_atMostOne (.inl ⟨rfl, rfl⟩)
    obtain ⟨ns, hwords, rfl⟩ := hkeyword.exists_body
    obtain ⟨w, hw, hwRest, hwCol, rfl⟩ := hwords.exists_words
    refine ⟨front, w, back, d.rest, hw, ?_, ?_, ?_, hstart, ?_, ?_⟩
    · exact hfront.imp_left (And.imp_right Option.isNone_iff_eq_none.mp)
    · refine hback.imp_left fun ⟨hnone, hedge⟩ => ⟨hnone, ?_⟩
      rw [List.isEmpty_iff.mp hedge, hnone] at hbackRest
      exact hbackRest.symm
    · rw [hfrontRest, hwRest, hbackRest]
    · rw [Found.part?, hmarks, ← hfrontCol, ← hwCol]
      rfl
    · rw [hstop, hbackCol, hwCol, hfrontCol]

/-! ## Matches and literals -/

def outside (inside : Nat → Bool) (f : Found) : Bool :=
  (f.part? .keyword).any fun word => !inside word.start

/-- A frame that closed literals do not disturb: only words of loops have a quote in front. -/
structure Quoteless (before after : Char → Bool) (ss : List String) : Prop where
  word : ∀ w ∈ ss, w.toList ≠ [] ∧ Line.Unquoted w.toList
  before : NoQuotes before ∨ ∀ w ∈ ss, w ∈ ["while", "do"]
  after : QuoteBlind after

variable {inside : Nat → Bool} {ok : Char → Prop} {p : Pattern} {c d : Cursor} {f : Found}
  {stop : Nat} {behind : Line}

theorem Quoteless.foundAt_inLiteral (hss : Quoteless before after ss)
    (h : c.InLiteral inside ok stop behind) (hbehind : behind.NoLoopWord)
    (hf : (framed before after ss).foundAt c = some f) :
    outside inside f = false ∧ f.stop ≤ stop := by
  obtain ⟨front, w, back, rest, hw, hfront, hback, hrest, -, hword, hstop⟩ := exists_framed hf
  have hinLiteral : Line.InLiteral inside ok (c.col + Line.size front)
      (w.toList ++ (back ++ rest)) stop behind := by
    rw [Cursor.InLiteral, hrest] at h
    rcases hfront with ⟨rfl, -⟩ | ⟨x, rfl, hx⟩
    · exact h
    · cases h with
      | next _ _ more => exact more
      | last hq =>
        -- The closing quote stands in front of the word.
        rcases hss.before with hbefore | hloop
        · rw [hbefore.eq_false hq] at hx
          cases hx
        · exact absurd ⟨back ++ rest, rfl⟩ (hbehind w (hloop w hw))
  have hbackIn := hinLiteral.skip (hss.word w hw).2
  refine ⟨by rw [outside, hword, Option.any_some, hinLiteral.inside_col]; rfl, ?_⟩
  rw [hstop]
  rcases hback with ⟨rfl, -⟩ | ⟨x, rfl, -⟩
  · exact Nat.le_of_lt hbackIn.lt
  · exact hbackIn.next_le

theorem Quoteless.foundAt_outside (hss : Quoteless before after ss) {x : Char} {xs ys : Line}
    (hc : c.rest = x :: xs) (hout : inside c.col = false)
    (hrest : Line.SameOutside inside ok (c.col + x.utf8Size) xs ys)
    (hf : (framed before after ss).foundAt c = some f) : outside inside f = true := by
  obtain ⟨front, w, back, rest, hw, hfront, -, htext, -, hword, -⟩ := exists_framed hf
  obtain ⟨hne, hquotes⟩ := hss.word w hw
  rw [outside, hword, Option.any_some]
  rcases hfront with ⟨rfl, -⟩ | ⟨y, rfl, -⟩
  · rw [Line.size, Nat.add_zero, hout]
    rfl
  · obtain ⟨rfl, rfl⟩ := List.cons.inj (hc.symm.trans htext)
    obtain ⟨z, zs, hz⟩ := List.exists_cons_of_ne_nil hne
    rw [hz] at hrest
    have hnext := hrest.inside_eq_false (hquotes z (by rw [hz]; exact List.mem_cons_self))
    rw [Line.size, Line.size, Nat.add_zero, hnext]
    rfl

theorem one_stopping_blind {test : Char → Bool} (htest : QuoteBlind test) :
    ((one test).lead stopping).Blind inside ok := by
  rintro ⟨before, col, x⟩ ⟨before', _, y⟩ ⟨-, rfl, hrest⟩
  change Line.SameOutside inside ok col x y at hrest
  cases hrest with
  | nil => rfl
  | char => rw [lead_one, lead_one, stopping, stopping]
  | literal hq hr =>
    rw [lead_one, lead_one, htest.eq (.inr ⟨hq, hr⟩), stopping, stopping,
      Line.utf8Size_of_isQuote hq, Line.utf8Size_of_isQuote hr]

theorem Quoteless.foundAt_eq (hss : Quoteless before after ss) {b b' : Option Char} {col : Nat}
    {x : Char} {xs ys : Line} (hb : Option.Rel QuoteAlike b b') (hout : inside col = false)
    (hrest : Line.SameOutside inside ok (col + x.utf8Size) xs ys) :
    (framed before after ss).foundAt ⟨b, col, x :: xs⟩ =
      (framed before after ss).foundAt ⟨b', col, x :: ys⟩ := by
  have hword : (capture .keyword (words ss)).Plain :=
    plain_capture (plain_words fun w hw => (hss.word w hw).2)
  have hblind : Further.Blind inside ok
      ((inOrder [capture .keyword (words ss), alt (one after) lineEnd]).lead stopping) :=
    hword.lead_blind (alt_blind (one_stopping_blind hss.after)
      lineEnd_outside.blind)
  have hstart := plain_lineStart.lead_blind hblind ⟨b, col, x :: xs⟩ ⟨b', col, x :: ys⟩
    ⟨hb, rfl, .char hout hrest⟩
  have hnext := hblind ⟨some x, _, xs⟩ ⟨some x, _, ys⟩ ⟨.some (.refl x), rfl, hrest⟩
  have hlead : (framed before after ss).lead stopping ⟨b, col, x :: xs⟩ =
      (framed before after ss).lead stopping ⟨b', col, x :: ys⟩ := by
    refine congrArg₂ Option.or hstart ?_
    rw [lead_one, lead_one, hnext]
  rw [foundAt, foundAt, hlead]

theorem Quoteless.foundAt_nil (hss : Quoteless before after ss) (b : Option Char) (col : Nat) :
    (framed before after ss).foundAt ⟨b, col, []⟩ = none := by
  cases hf : (framed before after ss).foundAt ⟨b, col, []⟩ with
  | none => rfl
  | some f =>
    obtain ⟨front, w, back, rest, hw, -, -, hrest, -⟩ := exists_framed hf
    have hempty := List.append_eq_nil_iff.mp hrest.symm
    exact absurd (List.append_eq_nil_iff.mp hempty.2).1 (hss.word w hw).1

/-! ## All matches -/

/-- The matches that start in a line, overlapping ones as well. -/
def foundFrom (p : Pattern) (b : Option Char) (col : Nat) (line : Line) : List Found :=
  (Cursor.allFrom b col line).filterMap p.foundAt

theorem foundFrom_cons (p : Pattern) (b : Option Char) (col : Nat) (x : Char) (rest : Line) :
    p.foundFrom b col (x :: rest) = (p.foundAt ⟨b, col, x :: rest⟩).toList ++
      p.foundFrom (some x) (col + x.utf8Size) rest := by
  rw [foundFrom, Cursor.allFrom, List.filterMap_cons]
  cases p.foundAt ⟨b, col, x :: rest⟩ <;> rfl

theorem le_start_of_mem_foundFrom {b : Option Char} {col : Nat} {line : Line}
    (h : f ∈ p.foundFrom b col line) : col ≤ f.start := by
  obtain ⟨c, hc, hf⟩ := List.mem_filterMap.mp h
  obtain ⟨front, -, hcol, -⟩ := Cursor.exists_front_of_mem_allFrom hc
  obtain ⟨-, -, hstart, -⟩ := path_of_foundAt hf
  rw [hstart, hcol]
  exact Nat.le_add_right _ _

theorem start_le_stop_of_mem_foundFrom {b : Option Char} {col : Nat} {line : Line}
    (h : f ∈ p.foundFrom b col line) : f.start ≤ f.stop := by
  obtain ⟨c, -, hf⟩ := List.mem_filterMap.mp h
  obtain ⟨d, hpath, hstart, hstop⟩ := path_of_foundAt hf
  obtain ⟨taken, -, hcol⟩ := hpath.exists_taken
  rw [hstart, hstop, hcol]
  exact Nat.le_add_right _ _

/-- A match in a literal does not reach into one outside that follows it. -/
def Clear (inside : Nat → Bool) (g f : Found) : Prop :=
  outside inside g = false → outside inside f = true → g.stop ≤ f.start

namespace Quoteless

variable {b b' : Option Char} {col : Nat} {line x y : Line}

theorem filter_inLiteral (hss : Quoteless before after ss)
    (h : Line.InLiteral inside ok col line stop behind) (hbehind : behind.NoLoopWord) :
    ∃ q, IsQuote q ∧ ((framed before after ss).foundFrom b col line).filter (outside inside) =
      ((framed before after ss).foundFrom (some q) stop behind).filter (outside inside) := by
  have hhere {b : Option Char} {col : Nat} {line : Line}
      (h : Line.InLiteral inside ok col line stop behind) :
      ((framed before after ss).foundAt ⟨b, col, line⟩).toList.filter (outside inside) = [] := by
    refine List.filter_eq_nil_iff.mpr fun f hf => ?_
    rw [(hss.foundAt_inLiteral (c := ⟨b, col, line⟩) h hbehind (Option.mem_toList.mp hf)).1]
    exact Bool.false_ne_true
  induction h generalizing b with
  | @last col q behind hq hin =>
    refine ⟨q, hq, ?_⟩
    rw [foundFrom_cons, List.filter_append, hhere (.last hq hin), Line.utf8Size_of_isQuote hq]
    rfl
  | @next col stop x rest behind hx hin more ih =>
    obtain ⟨q, hq, hrest⟩ := ih hbehind hhere
    refine ⟨q, hq, ?_⟩
    rw [foundFrom_cons, List.filter_append, hhere (.next hx hin more), hrest]
    rfl

theorem filter_foundFrom (hss : Quoteless before after ss)
    (h : Line.SameOutside inside ok col x y) (hb : Option.Rel QuoteAlike b b') :
    ((framed before after ss).foundFrom b col x).filter (outside inside) =
      ((framed before after ss).foundFrom b' col y).filter (outside inside) := by
  induction h generalizing b b' with
  | nil => simp [foundFrom, Cursor.allFrom, hss.foundAt_nil]
  | char hout hrest ih =>
    rw [foundFrom_cons, foundFrom_cons, List.filter_append, List.filter_append,
      hss.foundAt_eq hb hout hrest, ih (.some (.refl _))]
  | literal _ _ left right hleft hright _ ih =>
    obtain ⟨q, hq, hxs⟩ := hss.filter_inLiteral (b := b) left hleft
    obtain ⟨r, hr, hys⟩ := hss.filter_inLiteral (b := b') right hright
    rw [hxs, hys, ih (.some (.inr ⟨hq, hr⟩))]

theorem clear_inLiteral (hss : Quoteless before after ss)
    (h : Line.InLiteral inside ok col line stop behind) (hbehind : behind.NoLoopWord)
    (hclear : ∀ b, ((framed before after ss).foundFrom b stop behind).Pairwise (Clear inside)) :
    ((framed before after ss).foundFrom b col line).Pairwise (Clear inside) ∧
      ∀ f ∈ (framed before after ss).foundFrom b col line, outside inside f = true →
        stop ≤ f.start := by
  -- A match at the front is inside, and stops in front of everything outside.
  have hfront {b : Option Char} {col : Nat} {line : Line} {tail : List Found}
      (h : Line.InLiteral inside ok col line stop behind) (htail : tail.Pairwise (Clear inside))
      (hlate : ∀ f ∈ tail, outside inside f = true → stop ≤ f.start) :
      (((framed before after ss).foundAt ⟨b, col, line⟩).toList ++ tail).Pairwise (Clear inside) ∧
        ∀ f ∈ ((framed before after ss).foundAt ⟨b, col, line⟩).toList ++ tail,
          outside inside f = true → stop ≤ f.start := by
    have hhere : ∀ g ∈ ((framed before after ss).foundAt ⟨b, col, line⟩).toList,
        outside inside g = false ∧ g.stop ≤ stop := fun g hg =>
      hss.foundAt_inLiteral (c := ⟨b, col, line⟩) h hbehind (Option.mem_toList.mp hg)
    refine ⟨List.pairwise_append.mpr ⟨?_, htail, ?_⟩, ?_⟩
    · cases (framed before after ss).foundAt ⟨b, col, line⟩ <;> simp
    · intro g hg f hf _ hout
      exact Nat.le_trans (hhere g hg).2 (hlate f hf hout)
    · intro f hf hout
      rcases List.mem_append.mp hf with hf | hf
      · rw [(hhere f hf).1] at hout
        cases hout
      · exact hlate f hf hout
  induction h generalizing b with
  | last hq hin =>
    rw [foundFrom_cons, Line.utf8Size_of_isQuote hq]
    exact hfront (.last hq hin) (hclear _) fun f hf _ => le_start_of_mem_foundFrom hf
  | next hx hin more ih =>
    rw [foundFrom_cons]
    obtain ⟨htail, hlate⟩ := ih hbehind hclear hfront
    exact hfront (.next hx hin more) htail hlate

/-- No match keeps one outside literals from being found but those outside. -/
theorem clear_foundFrom (hss : Quoteless before after ss)
    (h : Line.SameOutside inside ok col x y) :
    ((framed before after ss).foundFrom b col x).Pairwise (Clear inside) := by
  induction h generalizing b with
  | nil => simp [foundFrom, Cursor.allFrom, hss.foundAt_nil]
  | @char col z xs ys hout hrest ih =>
    rw [foundFrom_cons, List.pairwise_append]
    refine ⟨?_, ih, ?_⟩
    · cases (framed before after ss).foundAt ⟨b, col, z :: xs⟩ <;> simp
    · intro g hg f _ hin
      rw [hss.foundAt_outside rfl hout hrest (Option.mem_toList.mp hg)] at hin
      cases hin
  | literal _ _ left _ hleft _ _ ih => exact (hss.clear_inLiteral left hleft fun b => ih).1

end Quoteless

/-! ## Matches apart -/

theorem apart_congr {r r' : Nat} {items : List Found}
    (h : ∀ f ∈ items, r ≤ f.start ∧ r' ≤ f.start) : apart r items = apart r' items := by
  cases items with
  | nil => rfl
  | cons f rest =>
    obtain ⟨hr, hr'⟩ := h f List.mem_cons_self
    rw [apart, apart, if_pos hr, if_pos hr']

theorem apart_eq_self {r : Nat} {items : List Found} (hr : ∀ f ∈ items, r ≤ f.start)
    (h : items.Pairwise fun g f => g.stop ≤ f.start) : apart r items = items := by
  induction items generalizing r with
  | nil => rfl
  | cons g rest ih =>
    obtain ⟨hg, hrest⟩ := List.pairwise_cons.mp h
    rw [apart, if_pos (hr g List.mem_cons_self), ih hg hrest]

/-- Matches that reach into no match that is kept may be left out beforehand. -/
theorem filter_apart {keep : Found → Bool} {items : List Found} (r : Nat)
    (hclear : items.Pairwise fun g f => keep g = false → keep f = true → g.stop ≤ f.start)
    (hends : ∀ f ∈ items, f.start ≤ f.stop) :
    (apart r items).filter keep = apart r (items.filter keep) := by
  induction items generalizing r with
  | nil => rfl
  | cons g rest ih =>
    obtain ⟨hfirst, hrest⟩ := List.pairwise_cons.mp hclear
    have ih := fun r => ih r hrest fun f hf => hends f (List.mem_cons_of_mem _ hf)
    rw [apart]
    cases hg : keep g with
    | true =>
      rw [List.filter_cons_of_pos hg, apart]
      split
      · rw [List.filter_cons_of_pos hg, ih]
      · exact ih r
    | false =>
      have hneg : ¬keep g = true := by simp [hg]
      rw [List.filter_cons_of_neg hneg]
      split
      · rename_i hle
        rw [List.filter_cons_of_neg hneg, ih]
        refine apart_congr fun f hf => ?_
        obtain ⟨hmem, hkeep⟩ := List.mem_filter.mp hf
        have hstop := hfirst f hmem hg hkeep
        exact ⟨hstop, Nat.le_trans hle (Nat.le_trans (hends g List.mem_cons_self) hstop)⟩
      · exact ih r

theorem Quoteless.filter_findAll (hss : Quoteless before after ss) {x y : Line}
    (h : Line.SameOutside inside ok 0 x y) :
    ((framed before after ss).findAll x).filter (outside inside) =
      ((framed before after ss).findAll y).filter (outside inside) := by
  have hfilter {x y : Line} (h : Line.SameOutside inside ok 0 x y) :
      ((framed before after ss).findAll x).filter (outside inside) =
        apart 0 (((framed before after ss).foundFrom none 0 x).filter (outside inside)) := by
    rw [findAll_eq]
    exact filter_apart 0 (hss.clear_foundFrom h) fun f hf => start_le_stop_of_mem_foundFrom hf
  rw [hfilter h, hfilter h.symm, hss.filter_foundFrom h .none]

theorem quoteless_conditional : Quoteless (fun c => isBlank c || c == '\x7d' || c == ';')
    (fun c => c == '(' || c == '\x7b' || isBlank c)
    ["if", "else", "for", "switch", "while", "do"] where
  word := by decide
  before := .inl (by decide)
  after := by decide

theorem quoteless_loop :
    Quoteless (fun c => !isWord c) (fun c => !isWord c) ["while", "do"] where
  word := by decide
  before := .inr (by decide)
  after := by decide

end ScopeLint.Pattern
