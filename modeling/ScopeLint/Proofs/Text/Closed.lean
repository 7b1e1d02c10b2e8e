import ScopeLint.Proofs.Text.Literal
import ScopeLint.Proofs.Text.Utf8

/-!
# Literals given by their columns

Where the literals of a line are known by their first and last columns and each of them is closed,
lines with the same bytes outside them differ inside literals alone.
-/

namespace ScopeLint.Line

/-! ## Characters and columns -/

theorem exists_char_of_byte {line : Line} {n : Nat} {b : UInt8}
    (h : (Utf8.encode line)[n]? = some b) (hb : b.toNat < 0x80) :
    ∃ front c back, line = front ++ c :: back ∧ size front = n ∧ c.toNat = b.toNat := by
  induction line generalizing n with
  | nil => cases h
  | cons c rest ih =>
    rw [encode_cons] at h
    by_cases hn : n < c.utf8Size
    · rw [List.getElem?_append_left (by rwa [String.length_utf8EncodeChar])] at h
      have hmem := List.mem_of_getElem? h
      have hone := Utf8.utf8Size_eq_one_of_mem hmem hb
      refine ⟨[], c, rest, rfl, ?_, Utf8.toNat_eq_of_mem hmem hb⟩
      rw [size]
      omega
    · rw [List.getElem?_append_right (by rw [String.length_utf8EncodeChar]; omega),
        String.length_utf8EncodeChar] at h
      obtain ⟨front, d, back, rfl, hsize, hd⟩ := ih h
      refine ⟨c :: front, d, back, rfl, ?_, hd⟩
      rw [size, hsize]
      omega

theorem exists_quote_of_byte {line : Line} {n : Nat}
    (h : (Utf8.encode line)[n]? = some 34 ∨ (Utf8.encode line)[n]? = some 39) :
    ∃ front q back, line = front ++ q :: back ∧ size front = n ∧ IsQuote q := by
  rcases h with h | h
  · obtain ⟨front, q, back, hline, hsize, hq⟩ := exists_char_of_byte h (by decide)
    exact ⟨front, q, back, hline, hsize, .inl (Char.toNat_inj.mp hq)⟩
  · obtain ⟨front, q, back, hline, hsize, hq⟩ := exists_char_of_byte h (by decide)
    exact ⟨front, q, back, hline, hsize, .inr (Char.toNat_inj.mp hq)⟩

theorem append_inj_of_size {front front' back back' : Line} (h : front ++ back = front' ++ back')
    (hsize : size front = size front') : front = front' ∧ back = back' := by
  rcases List.append_eq_append_iff.mp h with ⟨more, rfl, rfl⟩ | ⟨more, rfl, rfl⟩
  all_goals
    rw [size_append] at hsize
    obtain rfl : more = [] := size_eq_zero.mp (by omega)
    exact ⟨by rw [List.append_nil], rfl⟩

theorem size_add_utf8Size_le {front front' back back' : Line} {c : Char}
    (h : front ++ c :: back = front' ++ back') (hlt : size front < size front') :
    size front + c.utf8Size ≤ size front' := by
  rcases List.append_eq_append_iff.mp h with ⟨more, rfl, hmore⟩ | ⟨more, rfl, -⟩
  · cases more with
    | nil =>
      rw [List.append_nil] at hlt
      omega
    | cons d more =>
      obtain ⟨rfl, -⟩ := List.cons.inj hmore
      rw [size_append, size]
      omega
  · rw [size_append] at hlt
    omega

theorem getElem?_encode_suffix (front back : Line) (n : Nat) :
    (Utf8.encode (front ++ back))[size front + n]? = (Utf8.encode back)[n]? := by
  rw [encode_append, List.getElem?_append_right (by rw [length_encode]; omega), length_encode,
    Nat.add_sub_cancel_left]

/-! ## Closed literals -/

variable {inside : Nat → Bool} {ok : Char → Prop}

/-- From column `first` to column `last` stands a literal between two quotes, with nothing in it
but characters that are `ok`; no word of a loop follows. -/
inductive ClosedAt (ok : Char → Prop) : Line → Nat → Nat → Prop where
  | intro {front mid behind : Line} {q r : Char} (hopening : (mid ++ [r]).head? = some q)
    (hq : IsQuote q) (hr : IsQuote r) (hmid : ∀ c ∈ mid, ok c) (hbehind : behind.NoLoopWord) :
    ClosedAt ok (front ++ (mid ++ r :: behind)) (size front) (size front + size mid)

theorem inLiteral_append {col : Nat} {mid behind : Line} {r : Char} (hr : IsQuote r)
    (hmid : ∀ c ∈ mid, ok c)
    (hinside : ∀ j, col ≤ j → j ≤ col + size mid → inside j = true) :
    InLiteral inside ok col (mid ++ r :: behind) (col + size mid + 1) behind := by
  induction mid generalizing col with
  | nil => exact .last hr (hinside col (Nat.le_refl _) (Nat.le_refl _))
  | cons c mid ih =>
    rw [size] at hinside ⊢
    refine .next (hmid c List.mem_cons_self) (hinside col (Nat.le_refl _) (by omega)) ?_
    rw [← Nat.add_assoc]
    refine ih (fun d hd => hmid d (List.mem_cons_of_mem _ hd)) fun j hle hge => ?_
    exact hinside j (by omega) (by omega)

namespace ClosedAt

variable {line : Line} {first last : Nat}

theorem exists_front (h : ClosedAt ok line first last) :
    ∃ front rest, line = front ++ rest ∧ size front = first := by
  cases h
  exact ⟨_, _, rfl, rfl⟩

theorem inLiteral {front rest : Line} (h : ClosedAt ok (front ++ rest) (size front) last)
    (hinside : ∀ j, size front ≤ j → j ≤ last → inside j = true) :
    ∃ q text behind, rest = q :: text ∧ IsQuote q ∧ behind.NoLoopWord ∧
      InLiteral inside ok (size front) (q :: text) (last + 1) behind := by
  generalize hline : front ++ rest = line at h
  generalize hfirst : size front = first at h hinside ⊢
  cases h with
  | @intro front' mid behind q r hopening hq hr hmid hbehind =>
    obtain ⟨rfl, rfl⟩ := append_inj_of_size hline hfirst
    obtain ⟨text, htext⟩ : ∃ text, mid ++ r :: behind = q :: text := by
      cases mid with
      | nil => exact ⟨behind, by rw [← Option.some.inj hopening]; rfl⟩
      | cons c mid => exact ⟨mid ++ r :: behind, by rw [← Option.some.inj hopening]; rfl⟩
    refine ⟨q, text, behind, htext, hq, hbehind, ?_⟩
    rw [← htext]
    exact inLiteral_append hr hmid hinside

end ClosedAt

/-- The literals of a line by their first and last columns. -/
structure Columns (inside : Nat → Bool) (L : Nat → Nat → Prop) : Prop where
  inside_iff : ∀ col, inside col = true ↔ ∃ first last, L first last ∧ first ≤ col ∧ col ≤ last
  apart : ∀ {first last first' last'}, L first last → L first' last' → first ≤ first' →
    first' ≤ last → last' = last

variable {L : Nat → Nat → Prop} {x y : Line}

theorem Columns.inside_char (hL : Columns inside L)
    (hx : ∀ first last, L first last → ClosedAt ok x first last) {front rest : Line} {c : Char}
    (hfront : x = front ++ c :: rest) (hin : inside (size front) = false) {j : Nat}
    (hj : j < c.utf8Size) : inside (size front + j) = false := by
  refine Bool.eq_false_iff.mpr fun hinj => ?_
  obtain ⟨first, last, hlit, hle, hge⟩ := (hL.inside_iff _).mp hinj
  obtain ⟨text, more, htext, rfl⟩ := (hx _ _ hlit).exists_front
  by_cases hlt : size front < size text
  · have := size_add_utf8Size_le (hfront.symm.trans htext) hlt
    omega
  · have hhere := (hL.inside_iff (size front)).mpr ⟨_, last, hlit, by omega, by omega⟩
    rw [hin] at hhere
    cases hhere

theorem exists_of_encode_char {c : Char} {rest line : Line}
    (h : ∀ j < c.utf8Size, (Utf8.encode (c :: rest))[j]? = (Utf8.encode line)[j]?) :
    ∃ more, line = c :: more := by
  have hprefix : Utf8.encode [c] <+: Utf8.encode line := by
    rw [List.prefix_iff_getElem?]
    intro j hj
    have hbyte := h j (by rwa [length_encode, size, size, Nat.add_zero] at hj)
    have hcons : Utf8.encode (c :: rest) = Utf8.encode [c] ++ Utf8.encode rest :=
      encode_append [c] rest
    rw [← List.getElem?_eq_getElem hj, ← hbyte, hcons, List.getElem?_append_left hj]
  obtain ⟨more, rfl⟩ := Utf8.isPrefix_of_encode hprefix
  exact ⟨more, rfl⟩

/-- The same from a place on that is in no literal but may be the start of one. -/
theorem sameOutside_suffix (hL : Columns inside L)
    (hbytes : ∀ col, inside col = false → (Utf8.encode x)[col]? = (Utf8.encode y)[col]?)
    (hx : ∀ first last, L first last → ClosedAt ok x first last)
    (hy : ∀ first last, L first last → ClosedAt ok y first last) (hsize : size x = size y)
    {front rest front' rest' : Line} (hfront : x = front ++ rest) (hfront' : y = front' ++ rest')
    (hcol : size front = size front')
    (hplace : ∀ first last, L first last → first < size front → last < size front) :
    SameOutside inside ok (size front) rest rest' := by
  induction hn : rest.length using Nat.strongRecOn generalizing front rest front' rest' with
  | _ n ih =>
  cases rest with
  | nil =>
    have hrest' : size rest' = 0 := by
      rw [hfront, hfront', size_append, size_append, size] at hsize
      omega
    rw [size_eq_zero.mp hrest']
    exact .nil
  | cons c rest =>
    cases hin : inside (size front) with
    | true =>
      obtain ⟨first, last, hlit, hle, hge⟩ := (hL.inside_iff _).mp hin
      obtain rfl : first = size front := by
        have := hplace first last hlit
        omega
      have hinside : ∀ j, size front ≤ j → j ≤ last → inside j = true := fun j hle hge =>
        (hL.inside_iff j).mpr ⟨_, last, hlit, hle, hge⟩
      have hclosed := hx _ _ hlit
      have hclosed' := hy _ _ hlit
      rw [hfront] at hclosed
      rw [hfront', hcol] at hclosed'
      obtain ⟨q, text, behind, hrest, hq, hbehind, hleft⟩ := hclosed.inLiteral hinside
      obtain ⟨r, text', behind', hrest', hr, hbehind', hright⟩ :=
        hclosed'.inLiteral (by rwa [← hcol])
      rw [← hcol] at hright
      obtain ⟨taken, htaken, hstop⟩ := hleft.exists_text
      obtain ⟨taken', htaken', hstop'⟩ := hright.exists_text
      have hlength : behind.length < n := by
        have htakenPos : 0 < taken.length := by
          refine List.length_pos_iff.mpr ?_
          rintro rfl
          rw [size] at hstop
          omega
        rw [← hn, hrest, htaken, List.length_append]
        omega
      have hbehindSame : SameOutside inside ok (size (front ++ taken)) behind behind' := by
        refine @ih _ hlength (front ++ taken) behind (front' ++ taken') behind' ?_ ?_ ?_
          (fun first last' hlit' hlt => ?_) rfl
        · rw [hfront, hrest, htaken, List.append_assoc]
        · rw [hfront', hrest', htaken', List.append_assoc]
        · rw [size_append, size_append]
          omega
        · rw [size_append, hstop] at hlt ⊢
          by_cases hle : size front ≤ first
          · rw [hL.apart hlit hlit' hle (by omega)]
            exact Nat.lt_succ_self _
          · have := hplace first last' hlit' (by omega)
            omega
      rw [size_append, hstop] at hbehindSame
      rw [hrest, hrest']
      exact .literal hq hr hleft hright hbehind hbehind' hbehindSame
    | false =>
      have hout := fun j => @Columns.inside_char _ _ _ _ hL hx _ _ _ hfront hin j
      obtain ⟨more, rfl⟩ : ∃ more, rest' = c :: more := by
        refine @exists_of_encode_char c rest _ fun j hj => ?_
        rw [← getElem?_encode_suffix front, ← hfront, hbytes _ (hout j hj), hfront', hcol,
          getElem?_encode_suffix]
      refine .char hin ?_
      have hsame := @ih rest.length (by rw [← hn]; exact Nat.lt_succ_self _) (front ++ [c]) rest
        (front' ++ [c]) more (by rw [hfront, List.append_assoc]; rfl)
        (by rw [hfront', List.append_assoc]; rfl) (by rw [size_append, size_append, hcol])
      rw [size_append, size, size, Nat.add_zero] at hsame
      refine hsame (fun first last hlit hlt => ?_) rfl
      by_contra hge
      by_cases hle : first < size front
      · have := hplace first last hlit hle
        omega
      · have hin' := (hL.inside_iff (size front + (first - size front))).mpr
          ⟨first, last, hlit, by omega, by omega⟩
        rw [hout _ (by omega)] at hin'
        cases hin'

theorem sameOutside_of_bytes (hL : Columns inside L)
    (hbytes : ∀ col, inside col = false → (Utf8.encode x)[col]? = (Utf8.encode y)[col]?)
    (hx : ∀ first last, L first last → ClosedAt ok x first last)
    (hy : ∀ first last, L first last → ClosedAt ok y first last) (hsize : size x = size y) :
    SameOutside inside ok 0 x y :=
  @sameOutside_suffix _ _ _ _ _ hL hbytes hx hy hsize [] x [] y rfl rfl rfl
    fun _ _ _ h => absurd h (Nat.not_lt_zero _)

end ScopeLint.Line
