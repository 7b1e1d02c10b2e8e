import ScopeLint.Proofs.Inert.Lexing
import ScopeLint.Proofs.Text.Utf8

/-!
# Blanking comments keeps columns

A comment starts and ends between characters. So its bytes are blanked character by character, the
blanked line is well-formed, and it is as long as the line was.
-/

namespace ScopeLint.Inert

variable {s : Source}

/-! ## Bytes of a character -/

theorem byteAt?_mem_char {index : Nat} {front back : Line} {c : Char}
    (hline : s.lines[index]? = some (front ++ c :: back)) {j : Nat} (hj : j < c.utf8Size) :
    ∃ b ∈ String.utf8EncodeChar c, s.byteAt? ⟨index, Line.size front + j⟩ = some b := by
  have hlen : j < (String.utf8EncodeChar c).length := by
    rw [String.length_utf8EncodeChar]; exact hj
  refine ⟨(String.utf8EncodeChar c)[j], List.getElem_mem hlen, ?_⟩
  rw [Source.byteAt?_eq hline, Line.encode_append, Line.encode_cons,
    List.getElem?_append_right (by rw [Line.length_encode]; omega), Line.length_encode,
    Nat.add_sub_cancel_left, List.getElem?_append_left hlen, List.getElem?_eq_getElem hlen]

theorem utf8Size_eq_one_of_slash {p : Position} {front back : Line} {c : Char}
    (hline : s.lines[p.line]? = some (front ++ c :: back)) (hle : Line.size front ≤ p.col)
    (hlt : p.col < Line.size front + c.utf8Size) (hslash : s.byteAt? p = some slash) :
    c.utf8Size = 1 := by
  obtain ⟨j, hj⟩ := Nat.exists_eq_add_of_le hle
  obtain ⟨b, hb, hbyte⟩ := byteAt?_mem_char hline (by omega : j < c.utf8Size)
  rw [← hj] at hbyte
  obtain rfl : b = slash := Option.some.inj (hbyte.symm.trans hslash)
  exact Utf8.utf8Size_eq_one_of_mem hb (by decide)

/-! ## Ends of comments -/

theorem IsComment.byteAt?_start {c : Comment} (h : IsComment s c) :
    s.byteAt? c.span.start = some slash := h.1

theorem IsComment.stop_eq {c : Comment} (h : IsComment s c) :
    s.byteAt? c.span.stop = some slash ∨
      c.span.stop.col = (s.line c.span.stop.line).lastCol := by
  obtain ⟨-, h⟩ := h
  split at h
  · right
    rw [h.2, lineEnd]
  · rcases h.2 with ⟨p, hp, -, hstop⟩ | ⟨-, hstop⟩
    · left
      rw [hstop]
      exact hp.2.2
    · right
      rw [hstop, Source.lastPosition]

theorem IsComment.mem_span_iff {comment : Comment} (h : IsComment s comment) {index : Nat}
    {front back : Line} {c : Char} (hline : s.lines[index]? = some (front ++ c :: back)) {j : Nat}
    (hj : j < c.utf8Size) :
    (⟨index, Line.size front + j⟩ : Position) ∈ comment.span ↔
      (⟨index, Line.size front⟩ : Position) ∈ comment.span := by
  have hslash : ∀ p : Position, s.byteAt? p = some slash → p.line = index →
      Line.size front ≤ p.col → p.col < Line.size front + c.utf8Size → c.utf8Size = 1 := by
    rintro p hbyte rfl hle hlt
    exact utf8Size_eq_one_of_slash hline hle hlt hbyte
  constructor
  · rintro ⟨hstart, hstop⟩
    have hone := hslash comment.span.start h.byteAt?_start
    simp only [Position.le_def] at hstart hstop
    constructor
    · simp only [Position.le_def]
      omega
    · simp only [Position.le_def]
      omega
  · rintro ⟨hstart, hstop⟩
    simp only [Position.le_def] at hstart hstop
    constructor
    · simp only [Position.le_def]
      omega
    · rcases h.stop_eq with hbyte | hlast
      · have hone := hslash comment.span.stop hbyte
        simp only [Position.le_def]
        omega
      · by_cases hsame : comment.span.stop.line = index
        · have hsize : (s.line index).size = Line.size front + c.utf8Size + Line.size back := by
            rw [Source.line_eq hline, Line.size_append, Line.size]
            omega
          rw [hsame, Line.lastCol] at hlast
          simp only [Position.le_def]
          omega
        · simp only [Position.le_def]
          omega

theorem inComment_char {index : Nat} {front back : Line} {c : Char}
    (hline : s.lines[index]? = some (front ++ c :: back)) {j : Nat} (hj : j < c.utf8Size) :
    (ofSource s).inComment ⟨index, Line.size front + j⟩ =
      (ofSource s).inComment ⟨index, Line.size front⟩ := by
  rw [Bool.eq_iff_iff, inComment_iff, inComment_iff]
  constructor
  · rintro ⟨comment, hmem, hp⟩
    exact ⟨comment, hmem, (((ofSource_comments hmem).mem_span_iff hline hj).mp hp)⟩
  · rintro ⟨comment, hmem, hp⟩
    exact ⟨comment, hmem, (((ofSource_comments hmem).mem_span_iff hline hj).mpr hp)⟩

/-! ## Blanking bytes -/

theorem blankBytes_append (i : Inert) (line col : Nat) (front back : List UInt8) :
    i.blankBytes line col (front ++ back) =
      i.blankBytes line col front ++ i.blankBytes line (col + front.length) back := by
  induction front generalizing col with
  | nil => rfl
  | cons b rest ih =>
    rw [List.cons_append, blankBytes, blankBytes, ih, List.cons_append, List.length_cons]
    congr 3
    omega

@[simp] theorem length_blankBytes (i : Inert) (line col : Nat) (bytes : List UInt8) :
    (i.blankBytes line col bytes).length = bytes.length := by
  induction bytes generalizing col with
  | nil => rfl
  | cons b rest ih => rw [blankBytes, List.length_cons, List.length_cons, ih]

theorem blankBytes_of_inside {i : Inert} {line col : Nat} {bytes : List UInt8}
    (h : ∀ j < bytes.length, i.inComment ⟨line, col + j⟩ = true) :
    i.blankBytes line col bytes = List.replicate bytes.length 32 := by
  induction bytes generalizing col with
  | nil => rfl
  | cons b rest ih =>
    have hfirst : i.inComment ⟨line, col⟩ = true := h 0 (by simp)
    rw [blankBytes, if_pos hfirst, List.length_cons, List.replicate_succ, ih]
    intro j hj
    rw [Nat.add_assoc, Nat.add_comm 1 j]
    exact h (j + 1) (by simpa using hj)

theorem blankBytes_of_outside {i : Inert} {line col : Nat} {bytes : List UInt8}
    (h : ∀ j < bytes.length, i.inComment ⟨line, col + j⟩ = false) :
    i.blankBytes line col bytes = bytes := by
  induction bytes generalizing col with
  | nil => rfl
  | cons b rest ih =>
    have hfirst : i.inComment ⟨line, col⟩ = false := h 0 (by simp)
    rw [blankBytes, if_neg (by simp [hfirst]), ih]
    intro j hj
    rw [Nat.add_assoc, Nat.add_comm 1 j]
    exact h (j + 1) (by simpa using hj)

theorem getElem?_blankBytes (i : Inert) (line col : Nat) (bytes : List UInt8) (j : Nat) :
    (i.blankBytes line col bytes)[j]? =
      bytes[j]?.map fun b => if i.inComment ⟨line, col + j⟩ then 32 else b := by
  induction bytes generalizing col j with
  | nil => rfl
  | cons b rest ih =>
    rw [blankBytes]
    cases j with
    | zero => rfl
    | succ j =>
      have hcol : col + 1 + j = col + (j + 1) := by omega
      rw [List.getElem?_cons_succ, List.getElem?_cons_succ, ih, hcol]

/-! ## Blanking characters -/

/-- The characters of a line from column `col` on, with spaces for the bytes of each one in a
comment. -/
def blankChars (i : Inert) (index : Nat) : Nat → Line → Line
  | _, [] => []
  | col, c :: rest =>
    (if i.inComment ⟨index, col⟩ then List.replicate c.utf8Size ' ' else [c]) ++
      blankChars i index (col + c.utf8Size) rest

theorem encode_replicate_space (n : Nat) :
    Utf8.encode (List.replicate n ' ') = List.replicate n 32 := by
  induction n with
  | zero => rfl
  | succ n ih =>
    rw [List.replicate_succ, List.replicate_succ, Line.encode_cons, ih]
    rfl

theorem blankBytes_encode {index : Nat} {front back : Line}
    (hline : s.lines[index]? = some (front ++ back)) :
    (ofSource s).blankBytes index (Line.size front) (Utf8.encode back) =
      Utf8.encode (blankChars (ofSource s) index (Line.size front) back) := by
  induction back generalizing front with
  | nil => rfl
  | cons c rest ih =>
    have hrest := @ih (front ++ [c]) (by rw [hline, List.append_assoc, List.singleton_append])
    have hsize : Line.size (front ++ [c]) = Line.size front + c.utf8Size := by
      rw [Line.size_append]; rfl
    rw [hsize] at hrest
    rw [Line.encode_cons, blankBytes_append, String.length_utf8EncodeChar, hrest, blankChars,
      Line.encode_append]
    congr 1
    split
    · rename_i hinside
      rw [encode_replicate_space, blankBytes_of_inside, String.length_utf8EncodeChar]
      intro j hj
      rw [String.length_utf8EncodeChar] at hj
      rw [inComment_char hline hj, hinside]
    · rename_i houtside
      rw [blankBytes_of_outside]
      · exact (List.append_nil _).symm
      · intro j hj
        rw [String.length_utf8EncodeChar] at hj
        rw [inComment_char hline hj]
        simpa using houtside

/-! ## Blanking lines -/

theorem length_blankLines (i : Inert) (first : Nat) (lines : List Line) :
    (i.blankLines first lines).length = lines.length := by
  induction lines generalizing first with
  | nil => rfl
  | cons line rest ih => rw [blankLines, List.length_cons, List.length_cons, ih]

theorem getElem?_blankLines (i : Inert) (first : Nat) (lines : List Line) (index : Nat) :
    (i.blankLines first lines)[index]? = lines[index]?.map fun line =>
      Utf8.decodeLossy (i.blankBytes (first + index) 0 (Utf8.encode line)) := by
  induction lines generalizing first index with
  | nil => rfl
  | cons line rest ih =>
    rw [blankLines]
    cases index with
    | zero => rfl
    | succ index =>
      have hindex : first + 1 + index = first + (index + 1) := by omega
      rw [List.getElem?_cons_succ, List.getElem?_cons_succ, ih, hindex]

/-- Decoding the blanked bytes of a line loses nothing. -/
theorem encode_blankLine {index : Nat} {line : Line} (hline : s.lines[index]? = some line) :
    Utf8.encode (Utf8.decodeLossy ((ofSource s).blankBytes index 0 (Utf8.encode line))) =
      (ofSource s).blankBytes index 0 (Utf8.encode line) := by
  have h := @blankBytes_encode s index [] line hline
  rw [Line.size] at h
  rw [h, Utf8.decodeLossy_encode]

theorem size_blankLine {index : Nat} {line : Line}
    (h : ((ofSource s).blankLines 0 s.lines)[index]? = some line) :
    line.size = (s.line index).size := by
  rw [getElem?_blankLines, Option.map_eq_some_iff] at h
  obtain ⟨original, horiginal, rfl⟩ := h
  rw [Nat.zero_add, ← Line.length_encode, encode_blankLine horiginal, length_blankBytes,
    Line.length_encode, Source.line_eq horiginal]

/-! ## Characters that stay -/

theorem exists_of_blankChars {i : Inert} {index col : Nat} {line front back : Line} {x : Char}
    (h : blankChars i index col line = front ++ x :: back) (hx : isBlank x = false) :
    ∃ front' back', line = front' ++ x :: back' ∧ Line.size front' = Line.size front := by
  induction line generalizing col front with
  | nil => simp [blankChars] at h
  | cons c rest ih =>
    rw [blankChars] at h
    -- Whether or not the first character is blanked, it leaves as many bytes.
    have hfirst : ∃ first, (if i.inComment ⟨index, col⟩ then List.replicate c.utf8Size ' '
        else [c]) = first ∧ Line.size first = c.utf8Size ∧ ∀ y ∈ first, y = ' ' ∨ first = [c] := by
      refine ⟨_, rfl, ?_⟩
      split
      · refine ⟨?_, fun y hy => .inl (List.mem_replicate.mp hy).2⟩
        rw [← Line.length_encode, encode_replicate_space, List.length_replicate]
      · exact ⟨Nat.add_zero _, fun _ _ => .inr rfl⟩
    obtain ⟨first, hfirst, hsize, hfew⟩ := hfirst
    rw [hfirst] at h
    rcases List.append_eq_append_iff.mp h with ⟨more, rfl, hmore⟩ | ⟨more, hmore, hback⟩
    · obtain ⟨front', back', rfl, hsize'⟩ := ih hmore
      refine ⟨c :: front', back', rfl, ?_⟩
      rw [Line.size, Line.size_append, hsize, hsize']
    · cases more with
      | nil =>
        rw [List.append_nil] at hmore
        obtain ⟨front', back', rfl, hsize'⟩ := @ih _ [] hback.symm
        refine ⟨c :: front', back', rfl, ?_⟩
        rw [Line.size, ← hmore, hsize, hsize', Line.size, Nat.add_zero]
      | cons y more =>
        obtain ⟨rfl, -⟩ := List.cons.inj hback
        rcases hfew x (by rw [hmore]; simp) with rfl | hone
        · cases hx
        · rw [hone] at hmore
          cases front with
          | nil =>
            obtain ⟨rfl, -⟩ := List.cons.inj hmore
            exact ⟨[], rest, rfl, rfl⟩
          | cons d front => simp at hmore

/-- A character of a blanked line that is not blank stands there on the line of the unit. -/
theorem exists_of_blankLine {index : Nat} {front back : Line} {x : Char}
    (h : ((ofSource s).blankLines 0 s.lines)[index]? = some (front ++ x :: back))
    (hx : isBlank x = false) : ∃ front' back',
      s.lines[index]? = some (front' ++ x :: back') ∧ Line.size front' = Line.size front := by
  rw [getElem?_blankLines, Option.map_eq_some_iff] at h
  obtain ⟨line, hline, hblank⟩ := h
  have hchars := @blankBytes_encode s index [] line hline
  rw [Line.size] at hchars
  rw [Nat.zero_add, hchars, Utf8.decodeLossy_encode] at hblank
  obtain ⟨front', back', rfl, hsize⟩ := exists_of_blankChars hblank hx
  exact ⟨front', back', hline, hsize⟩

end ScopeLint.Inert
