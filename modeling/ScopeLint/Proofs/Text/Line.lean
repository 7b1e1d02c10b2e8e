import ScopeLint.Text.Line

/-!
# Columns of a line

A line has as many bytes as its size says, and what is cut off at its ends is blank.
-/

namespace ScopeLint.Line

/-! ## Bytes -/

@[simp] theorem length_encode (line : Line) : (Utf8.encode line).length = line.size := by
  induction line with
  | nil => rfl
  | cons c rest ih =>
    rw [Utf8.encode, List.flatMap_cons, List.length_append, String.length_utf8EncodeChar, size]
    rw [Utf8.encode] at ih
    omega

theorem encode_append (front back : Line) :
    Utf8.encode (front ++ back) = Utf8.encode front ++ Utf8.encode back := List.flatMap_append

theorem encode_cons (c : Char) (rest : Line) :
    Utf8.encode (c :: rest) = String.utf8EncodeChar c ++ Utf8.encode rest := rfl

@[simp] theorem size_append (front back : Line) :
    size (front ++ back) = size front + size back := by
  simp only [← length_encode, encode_append, List.length_append]

theorem size_eq_zero {line : Line} : size line = 0 ↔ line = [] := by
  cases line with
  | nil => simp [size]
  | cons c rest =>
    have := Char.utf8Size_pos c
    simp only [size, reduceCtorEq, iff_false]
    omega

theorem length_le_size (line : Line) : line.length ≤ line.size := by
  induction line with
  | nil => exact Nat.le_refl _
  | cons c rest ih =>
    have hpos := Char.utf8Size_pos c
    rw [List.length_cons, size]
    omega

theorem firstCodeCol_le (line : Line) : line.firstCodeCol ≤ line.size := by
  have hsize := congrArg size (List.takeWhile_append_dropWhile (p := isBlank) (l := line))
  rw [size_append] at hsize
  unfold firstCodeCol
  omega

theorem size_le_or_exists_longer {front front' back back' : Line}
    (h : front ++ back = front' ++ back') :
    size front ≤ size front' ∨ ∃ x more, front = front' ++ x :: more ∧ back' = x :: more ++ back := by
  rcases List.append_eq_append_iff.mp h with ⟨more, rfl, -⟩ | ⟨more, rfl, hback⟩
  · left
    rw [size_append]
    exact Nat.le_add_right _ _
  · cases more with
    | nil =>
      rw [List.append_nil]
      exact .inl (Nat.le_refl _)
    | cons x more => exact .inr ⟨x, more, rfl, hback⟩

/-! ## Columns of a character -/

theorem lt_of_mem_colsFrom {c : Char} {start col : Nat} {line : Line}
    (h : col ∈ colsFrom c start line) : col < start + line.size := by
  induction line generalizing start with
  | nil => cases h
  | cons x rest ih =>
    have hpos := Char.utf8Size_pos x
    have hrest : col ∈ colsFrom c (start + x.utf8Size) rest → col < start + size (x :: rest) := by
      intro h
      have hlt := ih h
      rw [size]
      omega
    rw [colsFrom] at h
    split at h
    · rcases List.mem_cons.mp h with rfl | h
      · rw [size]
        omega
      · exact hrest h
    · exact hrest h

theorem colsFrom_append (x : Char) (col : Nat) (front back : Line) :
    colsFrom x col (front ++ back) =
      colsFrom x col front ++ colsFrom x (col + size front) back := by
  induction front generalizing col with
  | nil => rfl
  | cons c front ih =>
    rw [List.cons_append, colsFrom, colsFrom, ih, size, Nat.add_assoc]
    split <;> rfl

theorem colsFrom_eq_nil_iff {x : Char} {col : Nat} {text : Line} :
    colsFrom x col text = [] ↔ x ∉ text := by
  induction text generalizing col with
  | nil => simp [colsFrom]
  | cons c text ih =>
    rw [colsFrom]
    by_cases hc : c = x
    · simp [hc]
    · rw [if_neg hc, ih]
      simp [Ne.symm hc]

theorem head?_colsFrom (x : Char) (col : Nat) (text : Line) :
    (colsFrom x col text).head?.getD (col + size text) =
      col + size (text.takeWhile (· ≠ x)) := by
  induction text generalizing col with
  | nil => rfl
  | cons c text ih =>
    rw [colsFrom]
    by_cases hc : c = x
    · rw [if_pos hc, List.takeWhile_cons_of_neg (by simp [hc])]
      rfl
    · rw [if_neg hc, List.takeWhile_cons_of_pos (by simpa using hc), size, size,
        ← Nat.add_assoc, ih, Nat.add_assoc]

/-! ## Cuts -/

theorem size_trimEnd_le (line : Line) : size (trimEnd line) ≤ size line := by
  obtain ⟨blanks, hline, -⟩ := exists_trimEnd_append line
  have hsize := congrArg size hline
  rw [size_append] at hsize
  omega

theorem lastCol_trimEnd_le (line : Line) : lastCol (trimEnd line) ≤ lastCol line := by
  have hle := size_trimEnd_le line
  unfold lastCol
  omega

theorem size_sliceFrom_le (start stop col : Nat) (line : Line) :
    size (sliceFrom start stop col line) ≤ size line := by
  induction line generalizing col with
  | nil => exact Nat.le_refl _
  | cons c rest ih =>
    have hrest := ih (col + c.utf8Size)
    rw [sliceFrom]
    split
    · rw [size, size]
      omega
    · rw [size]
      omega

theorem lt_of_mem_sliceFrom {start stop col : Nat} {line : Line} {c : Char} (hc : c.utf8Size = 1)
    (h : c ∈ sliceFrom start stop col line) : start < stop := by
  induction line generalizing col with
  | nil => cases h
  | cons x rest ih =>
    rw [sliceFrom] at h
    split at h
    · rename_i hends
      rcases List.mem_cons.mp h with rfl | h
      · omega
      · exact ih h
    · exact ih h

/-! ## Stretches -/

theorem sliceFrom_append (start stop col : Nat) (front back : Line) :
    sliceFrom start stop col (front ++ back) =
      sliceFrom start stop col front ++ sliceFrom start stop (col + size front) back := by
  induction front generalizing col with
  | nil => rfl
  | cons c rest ih =>
    rw [List.cons_append, sliceFrom, sliceFrom, ih, size, Nat.add_assoc]
    split <;> rfl

theorem sliceFrom_eq_nil {start stop col : Nat} {line : Line}
    (h : col + size line ≤ start ∨ stop ≤ col) : sliceFrom start stop col line = [] := by
  induction line generalizing col with
  | nil => rfl
  | cons c rest ih =>
    rw [size] at h
    rw [sliceFrom, if_neg (by omega), ih (by omega)]

theorem sliceFrom_eq_self {start stop col : Nat} {line : Line} (hstart : start ≤ col)
    (hstop : col + size line ≤ stop) : sliceFrom start stop col line = line := by
  induction line generalizing col with
  | nil => rfl
  | cons c rest ih =>
    have hpos := Char.utf8Size_pos c
    rw [size] at hstop
    rw [sliceFrom, if_pos (by omega), ih (by omega) (by omega)]

theorem slice_within {front mid back : Line} {start stop : Nat} (hstart : size front ≤ start)
    (hstop : stop ≤ size front + size mid) :
    slice (front ++ mid ++ back) start stop = sliceFrom start stop (size front) mid := by
  rw [slice, sliceFrom_append, sliceFrom_append, size_append, Nat.zero_add, Nat.zero_add,
    sliceFrom_eq_nil (.inl (by omega)), sliceFrom_eq_nil (.inr hstop), List.nil_append,
    List.append_nil]

theorem slice_append (front mid back : Line) :
    slice (front ++ mid ++ back) (size front) (size front + size mid) = mid := by
  rw [slice_within (Nat.le_refl _) (Nat.le_refl _),
    sliceFrom_eq_self (Nat.le_refl _) (Nat.le_refl _)]

theorem sliceFrom_shift (n start stop col : Nat) (line : Line) :
    sliceFrom (n + start) (n + stop) (n + col) line = sliceFrom start stop col line := by
  induction line generalizing col with
  | nil => rfl
  | cons c rest ih =>
    rw [sliceFrom, sliceFrom, Nat.add_assoc, ih]
    simp only [Nat.add_lt_add_iff_left]

theorem slice_append_shift (front part : Line) (start stop : Nat) :
    (front ++ part).slice (size front + start) (size front + stop) = part.slice start stop := by
  have hshift := sliceFrom_shift (size front) start stop 0 part
  rw [slice, sliceFrom_append, sliceFrom_eq_nil (.inl (by omega)), Nat.zero_add, List.nil_append]
  exact hshift

theorem isBoundary_size (front back : Line) : isBoundary (front ++ back) (size front) = true := by
  induction front with
  | nil => cases back <;> rfl
  | cons c rest ih =>
    rw [List.cons_append, isBoundary, size, Nat.add_sub_cancel_left, ih]
    simp

theorem from?_append (front back : Line) : (front ++ back).from? (size front) = some back := by
  have hsize : size (front ++ back) = size front + size back := size_append front back
  have hstop := isBoundary_size (front ++ back) []
  rw [List.append_nil] at hstop
  have hslice := slice_append front back []
  rw [List.append_nil] at hslice
  rw [from?, cut?, if_pos ⟨by omega, isBoundary_size front back, hstop⟩, hsize, hslice]

/-! ## Code on a line -/

/-- At the column a character starts that is not blank. -/
def HasCodeAt (line : Line) (col : Nat) : Prop :=
  ∃ front x rest, line = front ++ x :: rest ∧ col = size front ∧ isBlank x = false

variable {line : Line} {col : Nat}

theorem HasCodeAt.lt_size (h : line.HasCodeAt col) : col < line.size := by
  obtain ⟨front, x, rest, rfl, rfl, -⟩ := h
  have hpos := Char.utf8Size_pos x
  rw [size_append, size]
  omega

theorem size_takeWhile_append_le (ok : Char → Bool) (front rest : Line) {x : Char}
    (hx : ok x = false) : size ((front ++ x :: rest).takeWhile ok) ≤ size front := by
  induction front with
  | nil =>
    have hnone : (x :: rest).takeWhile ok = [] := List.takeWhile_cons_of_neg (by simp [hx])
    exact Nat.le_of_eq (congrArg size hnone)
  | cons y front ih =>
    rw [List.cons_append, List.takeWhile_cons]
    split
    · rw [size, size]
      omega
    · exact Nat.zero_le _

theorem HasCodeAt.firstCodeCol_le (h : line.HasCodeAt col) : line.firstCodeCol ≤ col := by
  obtain ⟨front, x, rest, rfl, rfl, hx⟩ := h
  exact size_takeWhile_append_le isBlank front rest hx

theorem HasCodeAt.le_lastCol_trimEnd (h : line.HasCodeAt col) : col ≤ lastCol (trimEnd line) := by
  obtain ⟨front, x, rest, rfl, rfl, hx⟩ := h
  obtain ⟨blanks, hline, hblanks⟩ := exists_trimEnd_append (front ++ x :: rest)
  rcases List.append_eq_append_iff.mp hline with ⟨more, htrim, hrest⟩ | ⟨more, -, hrest⟩
  · cases more with
    | nil =>
      -- Then the character is the first of the blanks.
      rw [List.nil_append] at hrest
      rw [← hrest, List.all_cons, hx] at hblanks
      cases hblanks
    | cons y more =>
      have hpos := Char.utf8Size_pos y
      rw [htrim, lastCol, size_append, size]
      omega
  · rw [hrest, List.all_append, List.all_cons, hx] at hblanks
    simp at hblanks

end ScopeLint.Line
