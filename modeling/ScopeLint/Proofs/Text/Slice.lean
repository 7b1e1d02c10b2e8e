import Mathlib.Data.List.TakeWhile
import ScopeLint.Proofs.Text.Closed

/-!
# Slices between characters

A slice has all characters with a byte between its columns. It has no byte more where none of them
stands across an end. With an end moved inwards, a slice becomes a part of what it was.
-/

namespace ScopeLint.Line

variable {line : Line} {start stop : Nat}

/-! ## Boundaries -/

theorem isBoundary_iff {col : Nat} :
    isBoundary line col = true ↔ ∃ front back, line = front ++ back ∧ size front = col := by
  constructor
  · intro h
    induction line generalizing col with
    | nil => exact ⟨[], [], rfl, (beq_iff_eq.mp h).symm⟩
    | cons c rest ih =>
      rw [isBoundary, Bool.or_eq_true, Bool.and_eq_true, beq_iff_eq, decide_eq_true_eq] at h
      rcases h with rfl | ⟨hle, h⟩
      · exact ⟨[], c :: rest, rfl, rfl⟩
      · obtain ⟨front, back, rfl, hsize⟩ := ih h
        exact ⟨c :: front, back, rfl, by rw [size, hsize]; omega⟩
  · rintro ⟨front, back, rfl, rfl⟩
    exact isBoundary_size front back

/-- No character stands across the column, be it that the line ends before. -/
def Clear (line : Line) (col : Nat) : Prop := isBoundary line col = true ∨ line.size ≤ col

theorem clear_of_append (front back : Line) : Clear (front ++ back) (size front) :=
  .inl (isBoundary_size front back)

theorem clear_zero (line : Line) : line.Clear 0 := clear_of_append [] line

theorem clear_lastCol (line : Line) : line.Clear (line.lastCol + 1) := by
  right
  rw [lastCol]
  omega

/-! ## Code on a line -/

theorem HasCodeAt.firstCodeCol {col : Nat} (h : line.HasCodeAt col) :
    line.HasCodeAt line.firstCodeCol := by
  obtain ⟨front, x, rest, rfl, rfl, hx⟩ := h
  have hfirst := List.head?_dropWhile_not isBlank (front ++ x :: rest)
  cases hdrop : (front ++ x :: rest).dropWhile isBlank with
  | nil =>
    have hblank := List.dropWhile_eq_nil_iff.mp hdrop x (by simp)
    rw [hx] at hblank
    cases hblank
  | cons y more =>
    rw [hdrop] at hfirst
    exact ⟨_, y, more, by rw [← hdrop, List.takeWhile_append_dropWhile], rfl, hfirst⟩

theorem trimEnd_cases (line : Line) :
    trimEnd line = [] ∨ ∃ front x, trimEnd line = front ++ [x] ∧ isBlank x = false := by
  induction line with
  | nil => exact .inl rfl
  | cons c rest ih =>
    rw [trimEnd]
    split
    · split
      · exact .inl rfl
      · rename_i hc
        exact .inr ⟨[], c, rfl, Bool.eq_false_iff.mpr hc⟩
    · rename_i d kept hkept
      rcases ih with hnone | ⟨front, x, htrim, hx⟩
      · rw [hkept] at hnone
        cases hnone
      · exact .inr ⟨c :: front, x, by rw [← hkept, htrim, List.cons_append], hx⟩

theorem HasCodeAt.exists_last {col : Nat} (h : line.HasCodeAt col) :
    ∃ front x back, line = front ++ x :: back ∧ trimEnd line = front ++ [x] ∧
      isBlank x = false := by
  obtain ⟨blanks, hline, hblanks⟩ := exists_trimEnd_append line
  rcases trimEnd_cases line with hnone | ⟨front, x, htrim, hx⟩
  · obtain ⟨front, x, rest, hcode, -, hx⟩ := h
    rw [hnone, List.nil_append] at hline
    have hblank := List.all_eq_true.mp hblanks x (by rw [← hline, hcode]; simp)
    rw [hx] at hblank
    cases hblank
  · refine ⟨front, x, blanks, ?_, htrim, hx⟩
    rw [hline, htrim, List.append_assoc, List.singleton_append]

theorem HasCodeAt.clear {col : Nat} (h : line.HasCodeAt col) : line.Clear col := by
  obtain ⟨front, x, rest, rfl, rfl, -⟩ := h
  exact clear_of_append front (x :: rest)

theorem clear_of_byte {col : Nat} {b : UInt8} (h : (Utf8.encode line)[col]? = some b)
    (hb : b.toNat < 0x80) : line.Clear col ∧ line.Clear (col + 1) := by
  obtain ⟨front, c, back, rfl, rfl, hc⟩ := exists_char_of_byte h hb
  have hone : c.utf8Size = 1 := by
    have hval : c.toNat = c.val.toNat := rfl
    have hlast : (127 : UInt32).toNat = 127 := rfl
    rw [Char.utf8Size_eq_one_iff, UInt32.le_iff_toNat_le]
    omega
  have hbehind := clear_of_append (front ++ [c]) back
  rw [List.append_assoc, size_append, size, size, hone] at hbehind
  exact ⟨clear_of_append front (c :: back), hbehind⟩

/-! ## Bytes of a slice -/

theorem exists_between {front rest whole back : Line} (h : front ++ rest = whole ++ back)
    (hle : size front ≤ size whole) : ∃ mid, whole = front ++ mid ∧ rest = mid ++ back := by
  rcases List.append_eq_append_iff.mp h with ⟨mid, hmid, hrest⟩ | ⟨more, hmore, hback⟩
  · exact ⟨mid, hmid, hrest⟩
  · have hsize := congrArg size hmore
    rw [size_append] at hsize
    obtain rfl : more = [] := size_eq_zero.mp (by omega)
    exact ⟨[], by rw [hmore, List.append_nil, List.append_nil], hback.symm⟩

theorem encode_slice (hstart : line.Clear start) (hstop : line.Clear stop)
    (hle : start ≤ stop ∨ line.size ≤ start) :
    Utf8.encode (line.slice start stop) = ((Utf8.encode line).take stop).drop start := by
  by_cases hbeyond : line.size ≤ start
  · have hnone : line.slice start stop = [] := sliceFrom_eq_nil (.inl (by omega))
    rw [hnone, List.drop_eq_nil_of_le]
    · rfl
    · rw [List.length_take, length_encode]
      omega
  have hends : start ≤ stop := hle.resolve_right hbeyond
  obtain ⟨front, rest, rfl, rfl⟩ := isBoundary_iff.mp (hstart.resolve_right hbeyond)
  -- What lies between the columns is a stretch of the line.
  obtain ⟨mid, back, rfl, hslice, htake⟩ : ∃ mid back, rest = mid ++ back ∧
      (front ++ rest).slice (size front) stop = mid ∧
      (Utf8.encode (front ++ rest)).take stop = Utf8.encode (front ++ mid) := by
    rcases hstop with hstop | hstop
    · obtain ⟨whole, back, hwhole, rfl⟩ := isBoundary_iff.mp hstop
      obtain ⟨mid, rfl, rfl⟩ := exists_between hwhole hends
      refine ⟨mid, back, rfl, ?_, ?_⟩
      · rw [size_append, ← List.append_assoc, slice_append]
      · rw [← List.append_assoc, encode_append, ← length_encode, List.take_left]
    · refine ⟨rest, [], (List.append_nil _).symm, ?_, ?_⟩
      · rw [size_append] at hstop
        rw [slice, sliceFrom_append, sliceFrom_eq_nil (.inl (by omega)), Nat.zero_add,
          sliceFrom_eq_self (Nat.le_refl _) hstop, List.nil_append]
      · exact List.take_of_length_le (by rw [length_encode]; exact hstop)
  rw [hslice, htake, encode_append, ← length_encode, List.drop_left]

/-! ## Ends moved -/

theorem sliceFrom_start_congr {start' col : Nat} (hstart : start ≤ col) (hstart' : start' ≤ col) :
    sliceFrom start' stop col line = sliceFrom start stop col line := by
  induction line generalizing col with
  | nil => rfl
  | cons c rest ih =>
    have hpos := Char.utf8Size_pos c
    have hiff : (col < stop ∧ start' < col + c.utf8Size) ↔
        (col < stop ∧ start < col + c.utf8Size) := by omega
    rw [sliceFrom, sliceFrom, ih (by omega) (by omega)]
    simp only [hiff]

theorem slice_suffix {start' : Nat} (h : start ≤ start') (line : Line) (stop : Nat) :
    line.slice start' stop <:+ line.slice start stop := by
  have hfrom : ∀ (line : Line) (col : Nat),
      sliceFrom start' stop col line <:+ sliceFrom start stop col line := by
    intro line
    induction line with
    | nil => exact fun _ => List.suffix_refl _
    | cons c rest ih =>
      intro col
      rw [sliceFrom, sliceFrom]
      by_cases hkept : col < stop ∧ start' < col + c.utf8Size
      · have hbehind : sliceFrom start' stop (col + c.utf8Size) rest =
            sliceFrom start stop (col + c.utf8Size) rest :=
          sliceFrom_start_congr (by omega) (by omega)
        rw [if_pos hkept, if_pos (by omega)]
        exact hbehind ▸ List.suffix_refl _
      · rw [if_neg hkept]
        split
        · exact (ih _).trans (List.suffix_cons _ _)
        · exact ih _
  exact hfrom line 0

theorem slice_prefix {stop' : Nat} (h : stop' ≤ stop ∨ line.size ≤ stop) (start : Nat) :
    line.slice start stop' <+: line.slice start stop := by
  have hfrom : ∀ (line : Line) (col : Nat), stop' ≤ stop ∨ col + line.size ≤ stop →
      sliceFrom start stop' col line <+: sliceFrom start stop col line := by
    intro line
    induction line with
    | nil => exact fun _ _ => List.prefix_refl _
    | cons c rest ih =>
      intro col hstop
      have hpos := Char.utf8Size_pos c
      rw [size] at hstop
      have hrest := ih (col + c.utf8Size) (by omega)
      rw [sliceFrom, sliceFrom]
      by_cases hkept : col < stop' ∧ start < col + c.utf8Size
      · rw [if_pos hkept, if_pos (by omega)]
        exact List.cons_prefix_cons.mpr ⟨rfl, hrest⟩
      · rw [if_neg hkept]
        split
        · rename_i hmore
          rw [sliceFrom_eq_nil (.inr (by omega))]
          exact List.nil_prefix
        · exact hrest
  exact hfrom line 0 (by rwa [Nat.zero_add])

theorem slice_zero_prefix (line : Line) (stop : Nat) : line.slice 0 stop <+: line := by
  have hall : line.slice 0 line.size = line :=
    sliceFrom_eq_self (Nat.le_refl _) (Nat.le_of_eq (Nat.zero_add _))
  have hprefix : line.slice 0 stop <+: line.slice 0 line.size :=
    slice_prefix (.inr (Nat.le_refl _)) 0
  rwa [hall] at hprefix

end ScopeLint.Line
