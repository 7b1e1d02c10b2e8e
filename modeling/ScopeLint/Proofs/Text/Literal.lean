import ScopeLint.Proofs.Text.Quote

/-!
# Lines that differ inside literals

Two lines that have the same characters outside literals, and closed literals at the same columns.
What is read of one line outside literals stands in the other as well.
-/

namespace ScopeLint.Line

def NoLoopWord (line : Line) : Prop := ∀ w ∈ ["while", "do"], ¬w.toList <+: line

instance (line : Line) : Decidable line.NoLoopWord :=
  inferInstanceAs (Decidable (∀ w ∈ ["while", "do"], _))

variable {inside : Nat → Bool} {ok : Char → Prop}

/-- From column `col` on the line is inside a literal. The literal ends with a quote in front of
column `stop`, and `behind` is what follows. -/
inductive InLiteral (inside : Nat → Bool) (ok : Char → Prop) : Nat → Line → Nat → Line → Prop where
  | last {col : Nat} {q : Char} {behind : Line} (hq : IsQuote q) (hin : inside col = true) :
    InLiteral inside ok col (q :: behind) (col + 1) behind
  | next {col stop : Nat} {x : Char} {rest behind : Line} (hx : ok x) (hin : inside col = true)
    (more : InLiteral inside ok (col + x.utf8Size) rest stop behind) :
    InLiteral inside ok col (x :: rest) stop behind

/-- Two lines, from column `col` on, that differ inside literals alone. -/
inductive SameOutside (inside : Nat → Bool) (ok : Char → Prop) : Nat → Line → Line → Prop where
  | nil {col : Nat} : SameOutside inside ok col [] []
  | char {col : Nat} {x : Char} {xs ys : Line} (hout : inside col = false)
    (rest : SameOutside inside ok (col + x.utf8Size) xs ys) :
    SameOutside inside ok col (x :: xs) (x :: ys)
  | literal {col stop : Nat} {q r : Char} {xs ys behind behind' : Line} (hq : IsQuote q)
    (hr : IsQuote r) (left : InLiteral inside ok col (q :: xs) stop behind)
    (right : InLiteral inside ok col (r :: ys) stop behind') (hleft : behind.NoLoopWord)
    (hright : behind'.NoLoopWord) (rest : SameOutside inside ok stop behind behind') :
    SameOutside inside ok col (q :: xs) (r :: ys)

/-! ## Inside a literal -/

theorem utf8Size_of_isQuote {q : Char} (hq : IsQuote q) : q.utf8Size = 1 := by
  rcases hq with rfl | rfl <;> rfl

theorem trimEnd_cons_of_ne {c : Char} {rest : Line}
    (h : isBlank c = false ∨ trimEnd rest ≠ []) : trimEnd (c :: rest) = c :: trimEnd rest := by
  rw [trimEnd]
  split
  · rename_i hrest
    rcases h with h | h
    · rw [h, hrest]
      rfl
    · exact absurd hrest h
  · rename_i hrest
    rw [hrest]

theorem noQuotes_isBlank : NoQuotes isBlank := by decide

namespace InLiteral

variable {col stop : Nat} {line behind : Line}

theorem lt (h : InLiteral inside ok col line stop behind) : col < stop := by
  induction h with
  | last => exact Nat.lt_succ_self _
  | next => omega

theorem inside_col (h : InLiteral inside ok col line stop behind) : inside col = true := by
  cases h with
  | last _ hin => exact hin
  | next _ hin _ => exact hin

theorem skip {w rest : Line} (h : InLiteral inside ok col (w ++ rest) stop behind)
    (hw : w.Unquoted) : InLiteral inside ok (col + size w) rest stop behind := by
  induction w generalizing col with
  | nil => exact h
  | cons c w ih =>
    cases h with
    | last hq => exact absurd hq (hw c List.mem_cons_self)
    | next _ _ more =>
      rw [size, ← Nat.add_assoc]
      exact ih more fun d hd => hw d (List.mem_cons_of_mem _ hd)

theorem next_le {c : Char} {rest : Line} (h : InLiteral inside ok col (c :: rest) stop behind) :
    col + c.utf8Size ≤ stop := by
  cases h with
  | last hq => exact Nat.le_of_eq (by rw [utf8Size_of_isQuote hq])
  | next _ _ more => exact Nat.le_of_lt more.lt

theorem exists_text (h : InLiteral inside ok col line stop behind) :
    ∃ text, line = text ++ behind ∧ col + size text = stop := by
  induction h with
  | @last col q behind hq _ => exact ⟨[q], rfl, by rw [size, size, utf8Size_of_isQuote hq]⟩
  | @next col stop x _ _ _ _ _ ih =>
    obtain ⟨text, rfl, hsize⟩ := ih
    exact ⟨x :: text, rfl, by rw [size, ← Nat.add_assoc, hsize]⟩

theorem exists_behind {front rest : Line} (h : InLiteral inside ok col (front ++ rest) stop behind)
    (hout : inside (col + size front) = false) :
    ∃ more, behind = more ++ rest ∧ col + size front = stop + size more := by
  generalize hline : front ++ rest = line at h
  induction h generalizing front with
  | last hq hin =>
    cases front with
    | nil =>
      rw [size, Nat.add_zero, hin] at hout
      cases hout
    | cons c front =>
      obtain ⟨rfl, rfl⟩ := List.cons.inj hline
      exact ⟨front, rfl, by rw [size, utf8Size_of_isQuote hq, Nat.add_assoc]⟩
  | next _ hin _ ih =>
    cases front with
    | nil =>
      rw [size, Nat.add_zero, hin] at hout
      cases hout
    | cons c front =>
      obtain ⟨rfl, rfl⟩ := List.cons.inj hline
      rw [size, ← Nat.add_assoc] at hout
      obtain ⟨more, hmore, hsize⟩ := ih hout rfl
      exact ⟨more, hmore, by rw [size, ← Nat.add_assoc, hsize]⟩

theorem shift {offset : Nat} (h : InLiteral inside ok (offset + col) line (offset + stop) behind) :
    InLiteral (fun j => inside (offset + j)) ok col line stop behind := by
  generalize hstart : offset + col = start at h
  generalize hend : offset + stop = ending at h
  induction h generalizing col with
  | last hq hin =>
    subst hstart
    obtain rfl : stop = col + 1 := by omega
    exact .last hq hin
  | next hx hin _ ih =>
    subst hstart
    exact .next hx hin (ih (Nat.add_assoc _ _ _).symm hend)

theorem size_trimEnd (h : InLiteral inside ok col line stop behind) :
    col + size (trimEnd line) = stop + size (trimEnd behind) := by
  induction h with
  | last hq =>
    rw [trimEnd_cons_of_ne (.inl (noQuotes_isBlank.eq_false hq)), size, utf8Size_of_isQuote hq,
      Nat.add_assoc]
  | @next col stop x rest behind _ _ more ih =>
    have hne : trimEnd rest ≠ [] := by
      intro hnil
      rw [hnil, size] at ih
      have := more.lt
      omega
    rw [trimEnd_cons_of_ne (.inr hne), size, ← Nat.add_assoc, ih]

end InLiteral

/-! ## Outside literals -/

namespace SameOutside

variable {col : Nat} {x y : Line}

theorem symm (h : SameOutside inside ok col x y) : SameOutside inside ok col y x := by
  induction h with
  | nil => exact .nil
  | char hout _ ih => exact .char hout ih
  | literal hq hr left right hleft hright _ ih =>
    exact .literal hr hq right left hright hleft ih

theorem toQuote (h : SameOutside inside ok col x y) : SameToQuote x y := by
  induction h with
  | nil => exact .nil
  | char _ _ ih => exact .char ih
  | literal hq hr => exact .quote hq hr

theorem inside_eq_false {c : Char} {rest : Line} (h : SameOutside inside ok col (c :: rest) y)
    (hc : NotQuote c) : inside col = false := by
  cases h with
  | char hout => exact hout
  | literal hq => exact absurd hq hc

theorem firstCodeCol (h : SameOutside inside ok col x y) : x.firstCodeCol = y.firstCodeCol := by
  rw [Line.firstCodeCol, Line.firstCodeCol, h.toQuote.takeWhile noQuotes_isBlank]

theorem size_trimEnd (h : SameOutside inside ok col x y) : size (trimEnd x) = size (trimEnd y) := by
  induction h with
  | nil => rfl
  | @char _ c xs ys _ _ ih =>
    by_cases hxs : trimEnd xs = []
    · have hys : trimEnd ys = [] := by rwa [← size_eq_zero, ← ih, size_eq_zero]
      rw [trimEnd, trimEnd, hxs, hys]
    · have hys : trimEnd ys ≠ [] := by rwa [ne_eq, ← size_eq_zero, ← ih, size_eq_zero]
      rw [trimEnd_cons_of_ne (.inr hxs), trimEnd_cons_of_ne (.inr hys), size, size, ih]
  | literal _ _ left right _ _ _ ih =>
    have hleft := left.size_trimEnd
    have hright := right.size_trimEnd
    omega

theorem exists_suffix {front rest : Line} (h : SameOutside inside ok col (front ++ rest) y)
    (hout : inside (col + size front) = false) :
    ∃ front' rest', y = front' ++ rest' ∧ size front' = size front ∧
      SameOutside inside ok (col + size front) rest rest' := by
  generalize hx : front ++ rest = x at h
  induction h generalizing front with
  | nil =>
    obtain ⟨rfl, rfl⟩ := List.append_eq_nil_iff.mp hx
    exact ⟨[], [], rfl, rfl, .nil⟩
  | char hin hrest ih =>
    cases front with
    | nil =>
      obtain rfl : rest = _ := hx
      exact ⟨[], _, rfl, rfl, .char hin hrest⟩
    | cons c front =>
      obtain ⟨rfl, rfl⟩ := List.cons.inj hx
      rw [size, ← Nat.add_assoc] at hout
      obtain ⟨front', rest', rfl, hsize, hsame⟩ := ih hout rfl
      refine ⟨c :: front', rest', rfl, by rw [size, size, hsize], ?_⟩
      rwa [size, ← Nat.add_assoc]
  | literal _ _ left right _ _ _ ih =>
    obtain ⟨text, hy, htext⟩ := right.exists_text
    rw [← hx] at left
    obtain ⟨more, hbehind, hsize⟩ := left.exists_behind hout
    rw [hsize] at hout ⊢
    obtain ⟨front', rest', rfl, hsize', hsame⟩ := ih hout hbehind.symm
    refine ⟨text ++ front', rest', by rw [hy, List.append_assoc], ?_, hsame⟩
    rw [size_append]
    omega

theorem exists_stretch {mid back : Line} (h : SameOutside inside ok col (mid ++ back) y)
    (hmid : mid.Unquoted) :
    ∃ back', y = mid ++ back' ∧ SameOutside inside ok (col + size mid) back back' := by
  induction mid generalizing col y with
  | nil => exact ⟨y, rfl, h⟩
  | cons c mid ih =>
    cases h with
    | char _ rest =>
      obtain ⟨back', rfl, hsame⟩ := ih rest fun d hd => hmid d (List.mem_cons_of_mem _ hd)
      refine ⟨back', rfl, ?_⟩
      rwa [size, ← Nat.add_assoc]
    | literal hq => exact absurd hq (hmid c List.mem_cons_self)

theorem shift {offset : Nat} (h : SameOutside inside ok (offset + col) x y) :
    SameOutside (fun j => inside (offset + j)) ok col x y := by
  generalize hstart : offset + col = start at h
  induction h generalizing col with
  | nil => exact .nil
  | char hout _ ih =>
    subst hstart
    exact .char hout (ih (Nat.add_assoc _ _ _).symm)
  | literal hq hr left right hleft hright _ ih =>
    subst hstart
    obtain ⟨stop, rfl⟩ := Nat.exists_eq_add_of_le
      (Nat.le_trans (Nat.le_add_right offset col) (Nat.le_of_lt left.lt))
    exact .literal hq hr left.shift right.shift hleft hright (ih rfl)

end SameOutside

end ScopeLint.Line
