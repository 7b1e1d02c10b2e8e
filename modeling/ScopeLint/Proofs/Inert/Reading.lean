import Mathlib.Tactic.SplitIfs
import ScopeLint.Proofs.Inert.Grammar

/-!
# Reading comments and literals

The reader of a line keeps to the rules: one lemma for each kind of byte it may meet, put together
along the line and then along the unit. The result is `pieces_tiled`.
-/

namespace ScopeLint.Inert

variable {s : Source}

/-! ## What holds between two bytes -/

/-- What is known of the bytes in front of `p` when the reader gets there. -/
def Reading (s : Source) (p : Position) : Mode → Prop
  | .code => True
  | .block start =>
    s.byteAt? start = some slash ∧ s.byteAt? (start.after 1) = some star ∧ start.after 2 ≤ p ∧
      ∀ q, q < p → ¬ClosesBlock s start q
  | .string start =>
    s.byteAt? start = some doubleQuote ∧ p.line = start.line ∧ start.col < p.col ∧
      (∀ q, q < p → ¬ClosesString s start q) ∧ backslashesBefore s start p.col % 2 = 0

/-- The pieces still to come at `p`: the one that is open first. -/
def Remaining (s : Source) (p : Position) : Mode → List Piece → Prop
  | .code, pieces => Tiled s p pieces
  | .block start, pieces =>
    ∃ stop rest, pieces = .comment ⟨.multiLine, ⟨start, stop⟩⟩ :: rest ∧ start ≤ stop ∧
      StopsAt (ClosesBlock s start) 1 s.lastPosition stop ∧ Tiled s (stop.after 1) rest
  | .string start, pieces =>
    ∃ stop rest, pieces = .literal ⟨start, stop⟩ :: rest ∧ start ≤ stop ∧
      StopsAt (ClosesString s start) 0 (lineEnd s start) stop ∧ Tiled s (stop.after 1) rest

/-- Reading from `p` to `q` ends these pieces and leads from one mode to the other. -/
def Reads (s : Source) (mode : Mode) (p : Position) (out : List Piece × Mode) (q : Position) :
    Prop :=
  Reading s p mode → Reading s q out.2 ∧
    ∀ more, Remaining s q out.2 more → Remaining s p mode (out.1 ++ more)

theorem Reads.trans {mode mode' mode'' : Mode} {p q r : Position} {ps qs : List Piece}
    (h : Reads s mode p (ps, mode') q) (k : Reads s mode' q (qs, mode'') r) :
    Reads s mode p (ps ++ qs, mode'') r := by
  intro hp
  obtain ⟨hq, hps⟩ := h hp
  obtain ⟨hr, hqs⟩ := k hq
  refine ⟨hr, fun more hmore => ?_⟩
  rw [List.append_assoc]
  exact hps _ (hqs _ hmore)

theorem Reads.cons {mode mode' mode'' : Mode} {p q r : Position} {x : Piece} {qs : List Piece}
    (h : Reads s mode p ([x], mode') q) (k : Reads s mode' q (qs, mode'') r) :
    Reads s mode p (x :: qs, mode'') r := h.trans k

/-! ## In code -/

theorem reads_plain {p : Position} (h : IsPlain s p) : Reads s .code p ([], .code) (p.after 1) := by
  refine fun _ => ⟨trivial, fun more hmore => ?_⟩
  refine Tiled.extend hmore (Position.le_after p 1) fun r hr hlt => ?_
  rcases Position.lt_after_one.mp hlt with hlt | rfl
  · exact absurd hr (Position.not_le.mpr hlt)
  · exact h

theorem reads_piece {x : Piece} (hle : x.span.start ≤ x.span.stop) (h : IsPiece s x) :
    Reads s .code x.span.start ([x], .code) (x.span.stop.after 1) := by
  refine fun _ => ⟨trivial, fun more hmore => ?_⟩
  refine ⟨fun q hq hlt => ?_, Position.le_refl _, hle, h, hmore⟩
  exact absurd hq (Position.not_le.mpr hlt)

theorem reads_openBlock {p : Position} (h : s.byteAt? p = some slash)
    (k : s.byteAt? (p.after 1) = some star) : Reads s .code p ([], .block p) (p.after 2) := by
  refine fun _ => ⟨⟨h, k, Position.le_refl _, ?_⟩, ?_⟩
  · exact fun q hq hcloses => absurd hcloses.1 (Position.not_le.mpr hq)
  · rintro more ⟨stop, rest, rfl, hle, hstops, hrest⟩
    refine ⟨fun q hq hlt => ?_, Position.le_refl _, hle, ⟨h, k, hstops⟩, hrest⟩
    exact absurd hq (Position.not_le.mpr hlt)

theorem backslashesBefore_of_le {start : Position} {col : Nat} (h : col ≤ start.col + 1) :
    backslashesBefore s start col = 0 := by
  cases col with
  | zero => rfl
  | succ col =>
    rw [backslashesBefore, if_neg]
    omega

theorem reads_openString {p : Position} (h : s.byteAt? p = some doubleQuote) :
    Reads s .code p ([], .string p) (p.after 1) := by
  refine fun _ => ⟨⟨h, rfl, Nat.lt_succ_self _, ?_, ?_⟩, ?_⟩
  · intro q hq hcloses
    obtain ⟨hline, hcol, -⟩ := hcloses
    rw [Position.lt_def, Position.after_line, Position.after_col] at hq
    omega
  · rw [Position.after_col, backslashesBefore_of_le (Nat.le_refl _)]
  · rintro more ⟨stop, rest, rfl, hle, hstops, hrest⟩
    refine ⟨fun q hq hlt => ?_, Position.le_refl _, hle, .inl ⟨h, hstops⟩, hrest⟩
    exact absurd hq (Position.not_le.mpr hlt)

/-! ## In a block comment -/

theorem reads_closeBlock {start p : Position} (h : s.byteAt? p = some star)
    (k : s.byteAt? (p.after 1) = some slash) :
    Reads s (.block start) p ([.comment ⟨.multiLine, ⟨start, p.after 1⟩⟩], .code) (p.after 2) := by
  rintro ⟨-, -, hp, hopen⟩
  refine ⟨trivial, fun more hmore => ⟨p.after 1, more, rfl, ?_, ?_, hmore⟩⟩
  · exact Position.le_trans (Position.le_after start 2)
      (Position.le_trans hp (Position.le_after p 1))
  · exact .inl ⟨p, ⟨hp, h, k⟩, hopen, rfl⟩

theorem reads_inBlock {start p : Position}
    (h : ¬(s.byteAt? p = some star ∧ s.byteAt? (p.after 1) = some slash)) :
    Reads s (.block start) p ([], .block start) (p.after 1) := by
  rintro ⟨hslash, hstar, hp, hopen⟩
  refine ⟨⟨hslash, hstar, Position.le_trans hp (Position.le_after p 1), ?_⟩, fun _ => id⟩
  intro q hq hcloses
  rcases Position.lt_after_one.mp hq with hq | rfl
  · exact hopen q hq hcloses
  · exact h hcloses.2

/-! ## In a string -/

theorem backslashesBefore_succ {start : Position} {col : Nat} (h : start.col < col) :
    backslashesBefore s start (col + 1) =
      if s.byteAt? ⟨start.line, col⟩ = some backslash then backslashesBefore s start col + 1
      else 0 := by
  rw [backslashesBefore]
  simp only [h, true_and]

theorem reads_closeString {start p : Position} (h : s.byteAt? p = some doubleQuote) :
    Reads s (.string start) p ([.literal ⟨start, p⟩], .code) (p.after 1) := by
  rintro ⟨-, hline, hcol, hopen, heven⟩
  refine ⟨trivial, fun more hmore => ⟨p, more, rfl, ?_, ?_, hmore⟩⟩
  · rw [Position.le_def]; omega
  · exact .inl ⟨p, ⟨hline, hcol, h, heven⟩, hopen, rfl⟩

theorem not_closesString_of_lt_after {start p : Position}
    (hopen : ∀ q, q < p → ¬ClosesString s start q) (hp : ¬ClosesString s start p) :
    ∀ q, q < p.after 1 → ¬ClosesString s start q := by
  intro q hq
  rcases Position.lt_after_one.mp hq with hq | rfl
  · exact hopen q hq
  · exact hp

theorem reads_inString {start p : Position} (hquote : s.byteAt? p ≠ some doubleQuote)
    (hbackslash : s.byteAt? p ≠ some backslash) :
    Reads s (.string start) p ([], .string start) (p.after 1) := by
  rintro ⟨hstart, hline, hcol, hopen, -⟩
  have hp : (⟨start.line, p.col⟩ : Position) = p := by rw [← hline]
  refine ⟨⟨hstart, hline, ?_, ?_, ?_⟩, fun _ => id⟩
  · rw [Position.after_col]; omega
  · exact not_closesString_of_lt_after hopen fun hcloses => hquote hcloses.2.2.1
  · rw [Position.after_col, backslashesBefore_succ hcol, hp, if_neg hbackslash]

/-- A backslash in a string takes the next byte with it: that byte is behind an odd number of
backslashes, and the byte after it is behind an even number again. -/
theorem reads_escape {start p : Position} (h : s.byteAt? p = some backslash) :
    Reads s (.string start) p ([], .string start) (p.after 2) := by
  rintro ⟨hstart, hline, hcol, hopen, heven⟩
  have hp : (⟨start.line, p.col⟩ : Position) = p := by rw [← hline]
  have hodd : backslashesBefore s start (p.col + 1) = backslashesBefore s start p.col + 1 := by
    rw [backslashesBefore_succ hcol, hp, if_pos h]
  refine ⟨⟨hstart, hline, ?_, ?_, ?_⟩, fun _ => id⟩
  · rw [Position.after_col]; omega
  · show ∀ q, q < (p.after 1).after 1 → _
    refine not_closesString_of_lt_after (not_closesString_of_lt_after hopen ?_) ?_
    · rintro ⟨-, -, hquote, -⟩
      rw [h] at hquote
      exact absurd hquote (by decide)
    · rintro ⟨-, -, -, heven'⟩
      rw [Position.after_col, hodd] at heven'
      omega
  · rw [Position.after_col, backslashesBefore_succ (by omega)]
    split
    · rw [hodd]; omega
    · rfl

/-! ## At the end of a line -/

theorem byteAt?_eq_none_of_between {index col : Nat} (hcol : (s.line index).size ≤ col)
    {p : Position} (hp : ⟨index, col⟩ ≤ p) (hlt : p < ⟨index + 1, 0⟩) : s.byteAt? p = none := by
  simp only [Position.le_def] at hp
  simp only [Position.lt_def] at hlt
  have hline : p.line = index := by omega
  apply Source.byteAt?_eq_none_of_col
  rw [hline]
  omega

theorem tiled_lineEnd {index col : Nat} (hcol : (s.line index).size ≤ col) {pieces : List Piece}
    (h : Tiled s ⟨index + 1, 0⟩ pieces) : Tiled s ⟨index, col⟩ pieces := by
  refine h.extend ?_ fun r hr hlt => isPlain_of_none (byteAt?_eq_none_of_between hcol hr hlt)
  simp only [Position.le_def]
  omega

theorem not_closes_of_lineEnd {index col : Nat} (hcol : (s.line index).size ≤ col)
    {closes : Position → Prop} (hbyte : ∀ q, closes q → s.byteAt? q ≠ none)
    (hopen : ∀ q, q < ⟨index, col⟩ → ¬closes q) : ∀ q, q < ⟨index + 1, 0⟩ → ¬closes q := by
  intro q hq hcloses
  by_cases hlt : q < ⟨index, col⟩
  · exact hopen q hlt hcloses
  · exact hbyte q hcloses (byteAt?_eq_none_of_between hcol (Position.not_lt.mp hlt) hq)

theorem byteAt?_ne_none_of_closesBlock {start p : Position} (h : ClosesBlock s start p) :
    s.byteAt? p ≠ none := by
  rw [h.2.1]; simp

theorem byteAt?_ne_none_of_closesString {start p : Position} (h : ClosesString s start p) :
    s.byteAt? p ≠ none := by
  rw [h.2.2.1]; simp

theorem reads_lineEnd {mode : Mode} (hmode : ∀ start, mode ≠ .string start) {index col : Nat}
    (hcol : (s.line index).size ≤ col) :
    Reads s mode ⟨index, col⟩ ([], mode) ⟨index + 1, 0⟩ := by
  cases mode with
  | code => exact fun _ => ⟨trivial, fun more hmore => tiled_lineEnd hcol hmore⟩
  | block start =>
    rintro ⟨hslash, hstar, hp, hopen⟩
    refine ⟨⟨hslash, hstar, Position.le_trans hp ?_, ?_⟩, fun _ => id⟩
    · simp only [Position.le_def]; omega
    · exact not_closes_of_lineEnd hcol (fun q => byteAt?_ne_none_of_closesBlock) hopen
  | string start => exact absurd rfl (hmode start)

theorem reads_stringEnd {start : Position} {index col : Nat} (hcol : (s.line index).size ≤ col) :
    Reads s (.string start) ⟨index, col⟩
      ([.literal ⟨start, ⟨index, (s.line index).lastCol⟩⟩], .code) ⟨index + 1, 0⟩ := by
  rintro ⟨hstart, hline, -, hopen, -⟩
  simp only at hline
  subst hline
  have hsize := Source.col_lt_of_byteAt? hstart
  have hnext := not_closes_of_lineEnd hcol (fun q => byteAt?_ne_none_of_closesString) hopen
  refine ⟨trivial, fun more hmore => ⟨_, more, rfl, ?_, .inr ⟨?_, rfl⟩, ?_⟩⟩
  · refine .inr ⟨rfl, ?_⟩
    show start.col ≤ (s.line start.line).size - 1
    omega
  · intro q hcloses
    apply hnext q _ hcloses
    simp only [Position.lt_def, hcloses.1]
    omega
  · apply tiled_lineEnd _ hmore
    show (s.line start.line).size ≤ (s.line start.line).size - 1 + 1
    omega

/-! ## Along a line -/

theorem byteAt?_of_drop {index : Nat} {line : Line} (hline : s.lines[index]? = some line)
    {col : Nat} {b : UInt8} {rest : List UInt8} (h : (Utf8.encode line).drop col = b :: rest) :
    s.byteAt? ⟨index, col⟩ = some b ∧ s.byteAt? ⟨index, col + 1⟩ = rest.head? ∧
      (Utf8.encode line).drop (col + 1) = rest := by
  have hrest : (Utf8.encode line).drop (col + 1) = rest := by
    rw [← List.drop_drop, h, List.drop_one, List.tail_cons]
  refine ⟨?_, ?_, hrest⟩
  · rw [Source.byteAt?_eq hline, ← List.head?_drop, h, List.head?_cons]
  · rw [Source.byteAt?_eq hline, ← List.head?_drop, hrest]

theorem characterEnd_eq (lastCol col : Nat) (next : Option UInt8) :
    characterEnd lastCol col next =
      min (col + if next = some backslash then 3 else 2) lastCol := by
  unfold characterEnd
  split_ifs <;> omega

theorem reads_lineComment {index col : Nat} (h : s.byteAt? ⟨index, col⟩ = some slash)
    (k : s.byteAt? ⟨index, col + 1⟩ = some slash) :
    Reads s .code ⟨index, col⟩
      ([.comment ⟨.singleLine, Span.onLine index col (s.line index).lastCol⟩], .code)
      ⟨index + 1, 0⟩ := by
  have hsize : col < (s.line index).size := Source.col_lt_of_byteAt? h
  have hle : (⟨index, col⟩ : Position) ≤ ⟨index, (s.line index).lastCol⟩ := by
    refine .inr ⟨rfl, ?_⟩
    show col ≤ (s.line index).size - 1
    omega
  have hcomment := reads_piece (s := s)
    (x := .comment ⟨.singleLine, Span.onLine index col (s.line index).lastCol⟩) hle ⟨h, k, rfl⟩
  refine hcomment.trans (reads_lineEnd (by simp) ?_)
  show (s.line index).size ≤ (s.line index).size - 1 + 1
  omega

theorem reads_character {index col stop : Nat} (h : s.byteAt? ⟨index, col⟩ = some singleQuote)
    (hstop : stop =
      characterEnd (s.line index).lastCol col (s.byteAt? ⟨index, col + 1⟩)) :
    Reads s .code ⟨index, col⟩ ([.literal (Span.onLine index col stop)], .code)
      ⟨index, col + 1 + (stop - col)⟩ := by
  have hsize : col < (s.line index).size := Source.col_lt_of_byteAt? h
  have hcol : col ≤ (s.line index).lastCol := by
    rw [Line.lastCol]; omega
  rw [characterEnd_eq] at hstop
  have hle : col ≤ stop := by
    rw [hstop]; omega
  have hpiece : IsPiece s (.literal (Span.onLine index col stop)) :=
    .inr ⟨h, by rw [hstop]; rfl⟩
  have hp : col + 1 + (stop - col) = stop + 1 := by omega
  rw [hp]
  exact reads_piece (x := .literal (Span.onLine index col stop)) (.inr ⟨rfl, hle⟩) hpiece

/-- The reader gets to the end of the line, with the first `skip` of the bytes read before. -/
theorem reads_readLine {index : Nat} {line : Line} (hline : s.lines[index]? = some line)
    (mode : Mode) (skip col : Nat) (rest : List UInt8)
    (hrest : (Utf8.encode line).drop col = rest) :
    Reads s mode ⟨index, col + skip⟩ (readLine index line.lastCol mode skip col rest)
      ⟨index + 1, 0⟩ := by
  have hsame := Source.line_eq hline
  subst hsame
  fun_induction readLine index (s.line index).lastCol mode skip col rest with
  | case1 start skip col =>
    have hend : (s.line index).size ≤ col := by simpa using hrest
    exact reads_stringEnd (by omega)
  | case2 mode skip col hmode =>
    have hend : (s.line index).size ≤ col := by simpa using hrest
    exact reads_lineEnd hmode (by omega)
  | case3 mode skip col b rest ih =>
    have hp : col + 1 + skip = col + (skip + 1) := by omega
    rw [hp] at ih
    exact ih (byteAt?_of_drop hline hrest).2.2
  | case4 col b rest h =>
    obtain ⟨hb, hnext, -⟩ := byteAt?_of_drop hline hrest
    rw [h.1] at hb
    rw [h.2] at hnext
    exact reads_lineComment hb hnext
  | case5 col b rest _ h ih =>
    obtain ⟨hb, hnext, hdrop⟩ := byteAt?_of_drop hline hrest
    rw [h.1] at hb
    rw [h.2] at hnext
    exact (reads_openBlock hb hnext).trans (ih hdrop)
  | case6 col rest _ _ ih =>
    obtain ⟨hb, -, hdrop⟩ := byteAt?_of_drop hline hrest
    exact (reads_openString hb).trans (ih hdrop)
  | case7 col rest stop pieces mode heq _ _ _ ih =>
    obtain ⟨hb, hnext, hdrop⟩ := byteAt?_of_drop hline hrest
    rw [heq] at ih
    exact (reads_character hb (by rw [hnext])).cons (ih hdrop)
  | case8 col b rest h₁ h₂ h₃ h₄ ih =>
    obtain ⟨hb, hnext, hdrop⟩ := byteAt?_of_drop hline hrest
    refine (reads_plain fun b' hb' => ?_).trans (ih hdrop)
    obtain rfl : b = b' := Option.some.inj (hb.symm.trans hb')
    have hnext' : s.byteAt? (Position.after ⟨index, col + 0⟩ 1) = rest.head? := hnext
    rw [hnext']
    refine ⟨h₃, h₄, ?_⟩
    rintro ⟨hslash, hsecond | hsecond⟩
    · exact h₁ ⟨hslash, hsecond⟩
    · exact h₂ ⟨hslash, hsecond⟩
  | case9 start col b rest h pieces mode heq ih =>
    obtain ⟨hb, hnext, hdrop⟩ := byteAt?_of_drop hline hrest
    rw [h.1] at hb
    rw [h.2] at hnext
    rw [heq] at ih
    exact (reads_closeBlock hb hnext).cons (ih hdrop)
  | case10 start col b rest h ih =>
    obtain ⟨hb, hnext, hdrop⟩ := byteAt?_of_drop hline hrest
    refine (reads_inBlock ?_).trans (ih hdrop)
    rintro ⟨hstar, hslash⟩
    rw [Nat.add_zero, hb] at hstar
    unfold Position.after at hslash
    rw [Nat.add_zero, hnext] at hslash
    exact h ⟨Option.some.inj hstar, hslash⟩
  | case11 start col rest ih =>
    obtain ⟨hb, -, hdrop⟩ := byteAt?_of_drop hline hrest
    exact (reads_escape hb).trans (ih hdrop)
  | case12 start col rest pieces mode heq _ ih =>
    obtain ⟨hb, -, hdrop⟩ := byteAt?_of_drop hline hrest
    rw [heq] at ih
    exact (reads_closeString hb).cons (ih hdrop)
  | case13 start col b rest h₁ h₂ ih =>
    obtain ⟨hb, -, hdrop⟩ := byteAt?_of_drop hline hrest
    refine (reads_inString ?_ ?_).trans (ih hdrop)
    · rw [Nat.add_zero, hb]
      exact fun h => h₂ (Option.some.inj h)
    · rw [Nat.add_zero, hb]
      exact fun h => h₁ (Option.some.inj h)

/-! ## Along a unit -/

theorem reads_readLines (mode : Mode) (index : Nat) (lines : List Line)
    (hlines : s.lines.drop index = lines) (hindex : index ≤ s.lines.length) :
    Reads s mode ⟨index, 0⟩ (readLines mode index lines) ⟨s.lines.length, 0⟩ := by
  induction lines generalizing mode index with
  | nil =>
    have hend : index = s.lines.length := by
      have := List.drop_eq_nil_iff.mp hlines
      omega
    subst hend
    exact fun h => ⟨h, fun _ => id⟩
  | cons line rest ih =>
    have hline : s.lines[index]? = some line := by
      rw [← List.head?_drop, hlines, List.head?_cons]
    have hlt := (List.getElem?_eq_some_iff.mp hline).1
    have hrest : s.lines.drop (index + 1) = rest := by
      rw [← List.drop_drop, hlines, List.drop_one, List.tail_cons]
    have hfirst := reads_readLine hline mode 0 0 (Utf8.encode line) (List.drop_zero)
    have hothers := ih (readLine index line.lastCol mode 0 0 (Utf8.encode line)).2 (index + 1) hrest
      (by omega)
    exact hfirst.trans hothers

/-- The pieces of a unit tile it. -/
theorem pieces_tiled (s : Source) : Tiled s ⟨0, 0⟩ (pieces s) := by
  have hbehind : ∀ q : Position, ⟨s.lines.length, 0⟩ ≤ q → s.byteAt? q = none := by
    intro q hq
    simp only [Position.le_def] at hq
    exact Source.byteAt?_eq_none_of_line (by omega)
  obtain ⟨hreading, hremaining⟩ :=
    reads_readLines (s := s) .code 0 s.lines List.drop_zero (Nat.zero_le _) trivial
  unfold pieces
  split
  · rename_i ps start heq
    rw [heq] at hreading hremaining
    obtain ⟨hslash, -, -, hopen⟩ := hreading
    have hle := Source.le_lastPosition_of_byteAt? hslash
    rw [if_pos hle]
    refine hremaining _ ⟨s.lastPosition, [], rfl, hle, .inr ⟨fun q hcloses => ?_, rfl⟩, ?_⟩
    · by_cases hq : q < ⟨s.lines.length, 0⟩
      · exact hopen q hq hcloses
      · exact byteAt?_ne_none_of_closesBlock hcloses (hbehind q (Position.not_lt.mp hq))
    · intro q hq
      exact isPlain_of_none
        (Source.byteAt?_eq_none_of_lastPosition_lt (Position.after_one_le.mp hq))
  · rename_i ps mode hmode heq
    rw [heq] at hreading hremaining
    cases mode with
    | code =>
      rw [← List.append_nil ps]
      exact hremaining [] fun q hq => isPlain_of_none (hbehind q hq)
    | block start => exact (hmode start rfl).elim
    | string start =>
      -- A string would have to start on a line behind the last one.
      obtain ⟨-, -, hcol, -⟩ := hreading
      exact absurd hcol (Nat.not_lt_zero _)

end ScopeLint.Inert
