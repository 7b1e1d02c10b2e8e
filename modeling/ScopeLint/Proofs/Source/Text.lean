import Mathlib.Data.List.Basic
import ScopeLint.Proofs.Source
import ScopeLint.Proofs.Text.Slice

/-!
# Texts of spans

The text of a span is a part of the text of each span around it. It is cut off at bytes: where both
ends of the span are between characters, it has the bytes in the span and no others.
-/

namespace ScopeLint

/-! ## Joined parts -/

section

variable {α : Type} {x : α} {parts others : List (List α)}

theorem intercalate_append (h : parts ≠ []) :
    List.intercalate [x] parts ++ [x] = parts.flatMap (· ++ [x]) := by
  induction parts with
  | nil => exact absurd rfl h
  | cons part rest ih =>
    cases rest with
    | nil => simp
    | cons next rest =>
      rw [List.intercalate_cons_cons, List.flatMap_cons, ← ih (List.cons_ne_nil _ _)]
      simp only [List.append_assoc]

theorem cons_intercalate (h : parts ≠ []) :
    x :: List.intercalate [x] parts = parts.flatMap (x :: ·) := by
  induction parts with
  | nil => exact absurd rfl h
  | cons part rest ih =>
    cases rest with
    | nil => simp
    | cons next rest =>
      rw [List.intercalate_cons_cons, List.flatMap_cons, ← ih (List.cons_ne_nil _ _)]
      simp only [List.append_assoc, List.cons_append, List.nil_append]

theorem suffix_intercalate (front : List (List α)) (part : List α) :
    part <:+ List.intercalate [x] (front ++ [part]) := by
  obtain ⟨text, htext⟩ : part ++ [x] <:+ (front ++ [part]).flatMap (· ++ [x]) := by
    rw [List.flatMap_append, List.flatMap_singleton]
    exact List.suffix_append _ _
  rw [← intercalate_append (by simp), ← List.append_assoc] at htext
  exact ⟨text, List.append_cancel_right htext⟩

theorem intercalate_suffix (h : others.flatMap (· ++ [x]) <:+ parts.flatMap (· ++ [x])) :
    List.intercalate [x] others <:+ List.intercalate [x] parts := by
  by_cases hothers : others = []
  · rw [hothers]
    exact List.nil_suffix
  · have hparts : parts ≠ [] := by
      rintro rfl
      rw [List.flatMap_nil, List.suffix_nil, ← intercalate_append hothers] at h
      simp at h
    rw [← intercalate_append hothers, ← intercalate_append hparts] at h
    obtain ⟨front, hfront⟩ := h
    rw [← List.append_assoc] at hfront
    exact ⟨front, List.append_cancel_right hfront⟩

theorem intercalate_prefix (h : others.flatMap (x :: ·) <+: parts.flatMap (x :: ·)) :
    List.intercalate [x] others <+: List.intercalate [x] parts := by
  by_cases hothers : others = []
  · rw [hothers]
    exact List.nil_prefix
  · have hparts : parts ≠ [] := by
      rintro rfl
      rw [List.flatMap_nil, List.prefix_nil, ← cons_intercalate hothers] at h
      cases h
    rw [← cons_intercalate hothers, ← cons_intercalate hparts] at h
    exact (List.cons_prefix_cons.mp h).2

end

namespace Source

variable {s : Source} {start start' behind behind' : Position}

/-! ## Pieces -/

def piecesFrom (start behind : Position) (index : Nat) (lines : List Line) : List Line :=
  (lines.zipIdx index).filterMap fun (line, index) =>
    if start.line ≤ index ∧ index ≤ behind.line then some (pieceOf start behind index line)
    else none

theorem pieces_eq_piecesFrom : s.pieces start behind = piecesFrom start behind 0 s.lines := rfl

theorem piecesFrom_cons (index : Nat) (line : Line) (lines : List Line) :
    piecesFrom start behind index (line :: lines) =
      if start.line ≤ index ∧ index ≤ behind.line then
        pieceOf start behind index line :: piecesFrom start behind (index + 1) lines
      else piecesFrom start behind (index + 1) lines := by
  by_cases hmem : start.line ≤ index ∧ index ≤ behind.line
  · simp only [piecesFrom, List.zipIdx_cons, List.filterMap_cons, if_pos hmem]
  · simp only [piecesFrom, List.zipIdx_cons, List.filterMap_cons, if_neg hmem]

theorem piecesFrom_append (index : Nat) (front back : List Line) :
    piecesFrom start behind index (front ++ back) =
      piecesFrom start behind index front ++
        piecesFrom start behind (index + front.length) back := by
  rw [piecesFrom, List.zipIdx_append, List.filterMap_append]
  rfl

theorem piecesFrom_eq_nil {index : Nat} {lines : List Line}
    (h : behind.line < index ∨ index + lines.length ≤ start.line) :
    piecesFrom start behind index lines = [] := by
  induction lines generalizing index with
  | nil => rfl
  | cons line lines ih =>
    rw [List.length_cons] at h
    rw [piecesFrom_cons, if_neg (by omega), ih (by omega)]

theorem piecesFrom_start_congr {index : Nat} (h : start.line < index) (h' : start'.line < index)
    (lines : List Line) :
    piecesFrom start' behind index lines = piecesFrom start behind index lines := by
  induction lines generalizing index with
  | nil => rfl
  | cons line lines ih =>
    have hpiece : pieceOf start' behind index line = pieceOf start behind index line := by
      rw [pieceOf, pieceOf, if_neg (by omega : ¬index = start'.line),
        if_neg (by omega : ¬index = start.line)]
    have hiff : (start'.line ≤ index ∧ index ≤ behind.line) ↔
        (start.line ≤ index ∧ index ≤ behind.line) := by omega
    rw [piecesFrom_cons, piecesFrom_cons, hpiece, ih (by omega) (by omega)]
    simp only [hiff]

theorem piecesFrom_suffix (h : start ≤ start') (index : Nat) (lines : List Line) :
    (piecesFrom start' behind index lines).flatMap (· ++ ['\n']) <:+
      (piecesFrom start behind index lines).flatMap (· ++ ['\n']) := by
  rw [Position.le_def] at h
  induction lines generalizing index with
  | nil => exact List.suffix_refl _
  | cons line lines ih =>
    rw [piecesFrom_cons, piecesFrom_cons]
    by_cases hinner : start'.line ≤ index ∧ index ≤ behind.line
    · have hpiece : pieceOf start' behind index line <:+ pieceOf start behind index line := by
        refine Line.slice_suffix ?_ line _
        split <;> split <;> omega
      obtain ⟨front, hfront⟩ := hpiece
      rw [if_pos hinner, if_pos (by omega), List.flatMap_cons, List.flatMap_cons, ← hfront,
        piecesFrom_start_congr (by omega : start.line < index + 1) (by omega)]
      simp only [List.append_assoc]
      exact List.suffix_append _ _
    · rw [if_neg hinner]
      split
      · exact (ih _).trans (List.suffix_append _ _)
      · exact ih _

theorem prefix_piecesFrom (h : behind' ≤ behind) (index : Nat) (lines : List Line) :
    (piecesFrom start behind' index lines).flatMap ('\n' :: ·) <+:
      (piecesFrom start behind index lines).flatMap ('\n' :: ·) := by
  rw [Position.le_def] at h
  induction lines generalizing index with
  | nil => exact List.prefix_refl _
  | cons line lines ih =>
    by_cases hover : behind'.line < index
    · rw [piecesFrom_eq_nil (.inl hover)]
      exact List.nil_prefix
    rw [piecesFrom_cons, piecesFrom_cons]
    by_cases hinner : start.line ≤ index ∧ index ≤ behind'.line
    · rw [if_pos hinner, if_pos (by omega), List.flatMap_cons, List.flatMap_cons]
      by_cases hlast : index = behind'.line
      · -- On its last line the inner text may end earlier, and none of its lines follow.
        have hpiece : pieceOf start behind' index line <+: pieceOf start behind index line := by
          refine Line.slice_prefix ?_ _
          rw [if_pos hlast]
          split <;> omega
        rw [piecesFrom_eq_nil (.inl (by omega)), List.flatMap_nil, List.append_nil]
        exact (List.cons_prefix_cons.mpr ⟨rfl, hpiece⟩).trans (List.prefix_append _ _)
      · have hpiece : pieceOf start behind' index line = pieceOf start behind index line := by
          rw [pieceOf, pieceOf, if_neg hlast, if_neg (by omega : ¬index = behind.line)]
        rw [hpiece]
        exact (List.prefix_append_right_inj _).mpr (ih _)
    · rw [if_neg hinner, if_neg (by omega)]
      exact ih _

theorem textOf_infix {inner outer : Span} (h : inner.Within outer) :
    s.textOf inner <:+: s.textOf outer := by
  have hbehind : inner.behind ≤ outer.behind := by
    have hstop := (Position.le_def _ _).mp h.2
    simp only [Position.le_def, Span.behind_line, Span.behind_col]
    omega
  have hstart : List.intercalate ['\n'] (s.pieces inner.start outer.behind) <:+ s.textOf outer :=
    intercalate_suffix (piecesFrom_suffix h.1 0 s.lines)
  have hstop : s.textOf inner <+: List.intercalate ['\n'] (s.pieces inner.start outer.behind) :=
    intercalate_prefix (prefix_piecesFrom hbehind 0 s.lines)
  exact hstop.isInfix.trans hstart.isInfix

theorem linesOf_all (s : Source) : s.linesOf ⟨⟨0, 0⟩, s.lastPosition⟩ = s.lines := by
  have hall : s.linesOf ⟨⟨0, 0⟩, s.lastPosition⟩ =
      s.lines.zipIdx.filterMap (some ∘ Prod.fst) := by
    refine List.filterMap_congr fun x hx => ?_
    obtain ⟨hlt, hline⟩ := mem_zipIdx_lines_iff.mp hx
    have hlast : x.2 ≤ s.lastPosition.line := Nat.le_sub_one_of_lt hlt
    show (if _ then _ else _) = some x.1
    rw [if_pos ⟨Nat.zero_le _, hlast⟩, pieceOf]
    refine congrArg some (Line.sliceFrom_eq_self ?_ ?_)
    · split <;> exact Nat.le_refl _
    · split
      · rename_i h
        have hindex : x.2 = s.lastPosition.line := h
        show 0 + x.1.size ≤ (s.line s.lastPosition.line).lastCol + 1
        rw [hline, hindex, Line.lastCol]
        omega
      · omega
  rw [hall, List.filterMap_eq_map, List.zipIdx_map_fst]

/-- The lines of a span are what is sliced between its ends. -/
theorem linesOf_eq_slice {span : Span} (h : span.stop.col + 1 < UInt64.size) :
    s.linesOf span = s.slice span.start span.stop := by
  rw [linesOf, slice, succ64_of_lt h, Span.behind]

/-! ## Bytes -/

def bytesOn (span : Span) (index : Nat) (line : Line) : List UInt8 :=
  ((Utf8.encode line).zipIdx.filter fun x => decide ((⟨index, x.2⟩ : Position) ∈ span)).map Prod.fst

def bytesIn (s : Source) (span : Span) : List (List UInt8) :=
  s.lines.zipIdx.filterMap fun (line, index) =>
    if span.HasLine index then some (bytesOn span index line) else none

theorem filter_zipIdx_between {α : Type} (items : List α) (first behind n : Nat) :
    ((items.zipIdx n).filter fun x => decide (first ≤ x.2 ∧ x.2 < behind)).map Prod.fst =
      (items.take (behind - n)).drop (first - n) := by
  induction items generalizing n with
  | nil => simp
  | cons x items ih =>
    rw [List.zipIdx_cons, List.filter_cons]
    by_cases hbehind : n < behind
    · obtain ⟨m, hm⟩ := Nat.exists_eq_add_of_lt hbehind
      rw [show behind - n = m + 1 by omega, List.take_succ_cons]
      by_cases hfirst : first ≤ n
      · rw [if_pos (by simpa using ⟨hfirst, hbehind⟩), List.map_cons, ih,
          Nat.sub_eq_zero_of_le hfirst, Nat.sub_eq_zero_of_le (Nat.le_succ_of_le hfirst),
          List.drop_zero, List.drop_zero, show behind - (n + 1) = m by omega]
      · rw [if_neg (by simpa using fun h => absurd h hfirst), ih,
          show first - n = first - (n + 1) + 1 by omega, List.drop_succ_cons,
          show behind - (n + 1) = m by omega]
    · rw [if_neg (by simpa using fun _ => Nat.not_lt.mp hbehind), ih,
        Nat.sub_eq_zero_of_le (Nat.not_lt.mp hbehind), show behind - (n + 1) = 0 by omega,
        List.take_zero, List.take_zero, List.drop_nil, List.drop_nil]

end Source

/-- No character of the unit stands across an end of the span. -/
structure Span.ClearIn (span : Span) (s : Source) : Prop where
  start : ∀ line, s.lines[span.start.line]? = some line → line.Clear span.start.col
  stop : ∀ line, s.lines[span.stop.line]? = some line → line.Clear (span.stop.col + 1)

namespace Source

variable {s : Source} {span : Span} {index : Nat} {line : Line}

theorem encode_pieceOf (hspan : span.start ≤ span.stop) (hclear : span.ClearIn s)
    (hline : s.lines[index]? = some line) :
    Utf8.encode (pieceOf span.start span.behind index line) =
      ((Utf8.encode line).take (if index = span.stop.line then span.stop.col + 1 else line.size)).drop
        (if index = span.start.line then span.start.col else 0) := by
  rw [Position.le_def] at hspan
  have hsize : line.Clear line.size := .inr (Nat.le_refl _)
  refine Line.encode_slice ?_ ?_ ?_
  · split
    · rename_i hstart
      exact hclear.start line (hstart ▸ hline)
    · exact line.clear_zero
  · split
    · rename_i hstop
      exact hclear.stop line (hstop ▸ hline)
    · exact hsize
  · have hbehindLine := span.behind_line
    have hbehindCol := span.behind_col
    split <;> split <;> omega

theorem encode_pieceOf_eq_bytesOn (hspan : span.start ≤ span.stop) (hclear : span.ClearIn s)
    (hline : s.lines[index]? = some line) (hindex : span.HasLine index) :
    Utf8.encode (pieceOf span.start span.behind index line) = bytesOn span index line := by
  rw [encode_pieceOf hspan hclear hline, bytesOn]
  have hbetween := filter_zipIdx_between (Utf8.encode line)
    (if index = span.start.line then span.start.col else 0)
    (if index = span.stop.line then span.stop.col + 1 else line.size) 0
  rw [Nat.sub_zero, Nat.sub_zero] at hbetween
  rw [← hbetween]
  congr 1
  refine List.filter_congr fun x hx => ?_
  have hcol : x.2 < line.size := by
    have hlt := List.snd_lt_of_mem_zipIdx hx
    rwa [Line.length_encode, Nat.add_zero] at hlt
  obtain ⟨hfirst, hlast⟩ := hindex
  refine decide_eq_decide.mpr ?_
  show _ ↔ span.start ≤ ⟨index, x.2⟩ ∧ ⟨index, x.2⟩ ≤ span.stop
  simp only [Position.le_def]
  split <;> split <;> omega

theorem map_encode_linesOf (hspan : span.start ≤ span.stop) (hclear : span.ClearIn s) :
    (s.linesOf span).map Utf8.encode = s.bytesIn span := by
  rw [linesOf, pieces, List.map_filterMap, bytesIn]
  refine List.filterMap_congr fun x hx => ?_
  have hline : s.lines[x.2]? = some x.1 := List.mem_zipIdx_iff_getElem?.mp hx
  by_cases hindex : span.start.line ≤ x.2 ∧ x.2 ≤ span.stop.line
  · show Option.map _ (if _ then _ else _) = if span.HasLine x.2 then _ else _
    rw [if_pos (show _ ∧ x.2 ≤ span.behind.line from hindex),
      if_pos (show span.HasLine x.2 from hindex), Option.map_some,
      encode_pieceOf_eq_bytesOn hspan hclear hline hindex]
  · show Option.map _ (if _ then _ else _) = if span.HasLine x.2 then _ else _
    rw [if_neg (show ¬(_ ∧ x.2 ≤ span.behind.line) from hindex),
      if_neg (show ¬span.HasLine x.2 from hindex), Option.map_none]

/-! ## First and last bytes -/

theorem exists_lines_append (h : s.lines[index]? = some line) :
    ∃ front back, s.lines = front ++ line :: back ∧ front.length = index := by
  obtain ⟨hlt, rfl⟩ := List.getElem?_eq_some_iff.mp h
  refine ⟨s.lines.take index, s.lines.drop (index + 1), ?_, ?_⟩
  · rw [← List.drop_eq_getElem_cons hlt, List.take_append_drop]
  · rw [List.length_take]
    omega

theorem exists_linesOf_start (h : s.lines[span.start.line]? = some line)
    (hle : span.start.line ≤ span.stop.line) :
    ∃ rest, s.linesOf span = pieceOf span.start span.behind span.start.line line :: rest := by
  obtain ⟨front, back, hlines, hlength⟩ := exists_lines_append h
  rw [linesOf, pieces_eq_piecesFrom, hlines, piecesFrom_append, piecesFrom_eq_nil (.inr (by omega)),
    piecesFrom_cons, if_pos ⟨by omega, by simpa [hlength] using hle⟩, Nat.zero_add, hlength]
  exact ⟨_, rfl⟩

theorem exists_linesOf_stop (h : s.lines[span.stop.line]? = some line)
    (hle : span.start.line ≤ span.stop.line) :
    ∃ front, s.linesOf span = front ++ [pieceOf span.start span.behind span.stop.line line] := by
  obtain ⟨front, back, hlines, hlength⟩ := exists_lines_append h
  have hback : piecesFrom span.start span.behind (span.stop.line + 1) back = [] :=
    piecesFrom_eq_nil (.inl (Nat.lt_succ_self _))
  rw [linesOf, pieces_eq_piecesFrom, hlines, piecesFrom_append, piecesFrom_cons,
    if_pos ⟨by omega, by simp [hlength]⟩, Nat.zero_add, hlength, hback]
  exact ⟨_, rfl⟩

theorem byteAt?_eq_some_iff {p : Position} {b : UInt8} : s.byteAt? p = some b ↔
    ∃ line, s.lines[p.line]? = some line ∧ (Utf8.encode line)[p.col]? = some b :=
  Option.bind_eq_some_iff

theorem head?_encode_textOf (hspan : span.start ≤ span.stop) (hclear : span.ClearIn s) {b : UInt8}
    (hb : s.byteAt? span.start = some b) : (Utf8.encode (s.textOf span)).head? = some b := by
  obtain ⟨line, hline, hbyte⟩ := byteAt?_eq_some_iff.mp hb
  have hle : span.start.line ≤ span.stop.line := by
    rw [Position.le_def] at hspan
    omega
  have hlt := (List.getElem?_eq_some_iff.mp hbyte).1
  rw [Line.length_encode] at hlt
  obtain ⟨rest, hlines⟩ := exists_linesOf_start hline hle
  -- The first piece has a byte, so that the text starts with its first one.
  have hhead : (Utf8.encode (pieceOf span.start span.behind span.start.line line)).head? = some b := by
    rw [encode_pieceOf hspan hclear hline, if_pos rfl, List.head?_drop, List.getElem?_take,
      if_pos, hbyte]
    rw [Position.le_def] at hspan
    split <;> omega
  rw [textOf, hlines]
  cases rest with
  | nil => rwa [List.intercalate_singleton]
  | cons next rest =>
    rw [List.intercalate_cons_cons, Line.encode_append, Line.encode_append, List.append_assoc,
      List.head?_append, hhead]
    rfl

theorem getLast?_encode_textOf (hspan : span.start ≤ span.stop) (hclear : span.ClearIn s)
    {b : UInt8} (hb : s.byteAt? span.stop = some b) :
    (Utf8.encode (s.textOf span)).getLast? = some b := by
  obtain ⟨line, hline, hbyte⟩ := byteAt?_eq_some_iff.mp hb
  have hle : span.start.line ≤ span.stop.line := by
    rw [Position.le_def] at hspan
    omega
  have hlt := (List.getElem?_eq_some_iff.mp hbyte).1
  obtain ⟨front, hlines⟩ := exists_linesOf_stop hline hle
  have hlast : (Utf8.encode (pieceOf span.start span.behind span.stop.line line)).getLast? =
      some b := by
    have hlength : ((Utf8.encode line).take (span.stop.col + 1)).length = span.stop.col + 1 := by
      rw [List.length_take]
      omega
    rw [encode_pieceOf hspan hclear hline, if_pos rfl, List.getLast?_drop, hlength, if_neg,
      List.getLast?_take, if_neg (Nat.succ_ne_zero _), Nat.add_sub_cancel, hbyte]
    · rfl
    · rw [Position.le_def] at hspan
      split <;> omega
  have hsuffix : pieceOf span.start span.behind span.stop.line line <:+ s.textOf span := by
    rw [textOf, hlines]
    exact suffix_intercalate front _
  obtain ⟨text, htext⟩ := hsuffix
  rw [← htext, Line.encode_append, List.getLast?_append, hlast]
  rfl

end Source

end ScopeLint
