import ScopeLint.Proofs.Down
import ScopeLint.Proofs.Inert.Lexing
import ScopeLint.Proofs.Region.Bounds

/-!
# Comments and literals of appended lines

Lines that leave no comment open have no part in how the lines behind them are read: these have the
comments and literals they have on their own, further down.
-/

namespace ScopeLint.Inert

variable {name : String} {a b : List Line}

/-! ## Reading further down -/

theorem readLine_down (n line lastCol : Nat) (mode : Mode) (skip col : Nat) (bytes : List UInt8) :
    readLine (line + n) lastCol (mode.down n) skip col bytes =
      ((readLine line lastCol mode skip col bytes).1.map (Piece.down n),
        (readLine line lastCol mode skip col bytes).2.down n) := by
  fun_induction readLine line lastCol mode skip col bytes with
  | case1 start skip col => rfl
  | case2 mode skip col hmode =>
    cases mode with
    | code => rfl
    | block start => rfl
    | string start => exact absurd rfl (hmode start)
  | case3 mode skip col b rest ih =>
    rw [readLine]
    exact ih
  | case4 col b rest h =>
    rw [Mode.down, readLine, if_pos h]
    rfl
  | case5 col b rest h₁ h₂ ih =>
    rw [Mode.down, readLine, if_neg h₁, if_pos h₂]
    exact ih
  | case6 col rest h₁ h₂ ih =>
    rw [Mode.down, readLine, if_neg h₁, if_neg h₂, if_pos rfl]
    exact ih
  | case7 col rest stop pieces mode heq h₁ h₂ h₃ ih =>
    rw [heq] at ih
    rw [Mode.down] at ih ⊢
    rw [readLine, if_neg h₁, if_neg h₂, if_neg h₃, if_pos rfl]
    simp only [stop, ih]
    rfl
  | case8 col b rest h₁ h₂ h₃ h₄ ih =>
    rw [Mode.down] at ih ⊢
    rw [readLine, if_neg h₁, if_neg h₂, if_neg h₃, if_neg h₄]
    exact ih
  | case9 start col b rest h pieces mode heq ih =>
    rw [heq, Mode.down] at ih
    rw [Mode.down, readLine, if_pos h]
    simp only [ih]
    rfl
  | case10 start col b rest h ih =>
    rw [Mode.down] at ih ⊢
    rw [readLine, if_neg h]
    exact ih
  | case11 start col rest ih =>
    rw [Mode.down] at ih ⊢
    rw [readLine, if_pos rfl]
    exact ih
  | case12 start col rest pieces mode heq h ih =>
    rw [heq, Mode.down] at ih
    rw [Mode.down, readLine, if_neg h, if_pos rfl]
    simp only [ih]
    rfl
  | case13 start col b rest h₁ h₂ ih =>
    rw [Mode.down] at ih ⊢
    rw [readLine, if_neg h₁, if_neg h₂]
    exact ih

theorem readLines_down (n : Nat) (mode : Mode) (index : Nat) (lines : List Line) :
    readLines (mode.down n) (index + n) lines =
      ((readLines mode index lines).1.map (Piece.down n),
        (readLines mode index lines).2.down n) := by
  induction lines generalizing mode index with
  | nil => rfl
  | cons line rest ih =>
    have hnext : index + n + 1 = index + 1 + n := by omega
    simp only [readLines, readLine_down, hnext, ih, List.map_append]

theorem readLines_append (mode : Mode) (index : Nat) (front back : List Line) :
    readLines mode index (front ++ back) =
      let first := readLines mode index front
      let second := readLines first.2 (index + front.length) back
      (first.1 ++ second.1, second.2) := by
  induction front generalizing mode index with
  | nil => rfl
  | cons line rest ih =>
    have hnext : index + 1 + rest.length = index + (rest.length + 1) := by omega
    simp only [List.cons_append, readLines, ih, hnext, List.length_cons, List.append_assoc]

/-! ## Ends of lines -/

theorem readLine_ne_string (line lastCol : Nat) (mode : Mode) (skip col : Nat) (bytes : List UInt8)
    (start : Position) : (readLine line lastCol mode skip col bytes).2 ≠ .string start := by
  fun_induction readLine line lastCol mode skip col bytes with
  | case2 mode skip col hmode => exact hmode start
  | case1 | case4 => simp
  | case3 _ _ _ _ _ ih | case5 _ _ _ _ _ ih | case6 _ _ _ _ ih | case8 _ _ _ _ _ _ _ ih
  | case10 _ _ _ _ _ ih | case11 _ _ _ ih | case13 _ _ _ _ _ _ ih => exact ih
  | case7 _ _ _ _ _ heq _ _ _ ih | case9 _ _ _ _ _ _ _ heq ih | case12 _ _ _ _ _ heq _ ih =>
    rw [heq] at ih
    exact ih

/-- No string outlives its line. -/
theorem readLines_ne_string {mode : Mode} (hmode : ∀ start, mode ≠ .string start) (index : Nat)
    (lines : List Line) (start : Position) : (readLines mode index lines).2 ≠ .string start := by
  induction lines generalizing mode index with
  | nil => exact hmode start
  | cons line rest ih => exact ih (readLine_ne_string _ _ _ _ _ _) _

def Closed (lines : List Line) : Prop := ∀ start, (readLines .code 0 lines).2 ≠ .block start

theorem Closed.readLines_eq (h : Closed a) : (readLines .code 0 a).2 = .code := by
  have hstring := @readLines_ne_string .code nofun 0 a
  cases hmode : (readLines .code 0 a).2 with
  | code => rfl
  | block start => exact absurd hmode (h start)
  | string start => exact absurd hmode (hstring start)

/-! ## Pieces -/

theorem pieces_eq_of_closed (h : Closed a) : pieces ⟨name, a⟩ = (readLines .code 0 a).1 := by
  unfold pieces
  split
  · rename_i found start hread
    exact absurd (congrArg Prod.snd hread) (h start)
  · rename_i found mode _ hread
    rw [hread]

theorem lastPosition_append (hb : b ≠ []) : Source.lastPosition ⟨name, a ++ b⟩ =
    (Source.lastPosition ⟨name, b⟩).down a.length := by
  have hpos := List.length_pos_iff.mpr hb
  have hlast : (a ++ b).length - 1 = b.length - 1 + a.length := by
    rw [List.length_append]
    omega
  unfold Source.lastPosition Source.line Position.down
  simp only [hlast]
  rw [List.getElem?_append_right (by omega), Nat.add_sub_cancel]

theorem pieces_append (h : Closed a) :
    pieces ⟨name, a ++ b⟩ = pieces ⟨name, a⟩ ++ (pieces ⟨name, b⟩).map (Piece.down a.length) := by
  have hback := readLines_down a.length .code 0 b
  rw [Nat.zero_add, Mode.down] at hback
  rw [pieces_eq_of_closed h]
  unfold pieces
  simp only [readLines_append, h.readLines_eq, Nat.zero_add, hback]
  cases hread : readLines .code 0 b with
  | mk found mode =>
    cases mode with
    | code => rfl
    | string start => rfl
    | block start =>
      have hb : b ≠ [] := by
        rintro rfl
        cases hread
      simp only [Mode.down, lastPosition_append hb, Position.down_le_down, List.append_assoc,
        List.map_append, List.map_cons, List.map_nil, Piece.down, Comment.down, Span.down]
      split <;> rfl

theorem filterMap_map_down {α : Type} {pick : Piece → Option α} (down : α → α) {n : Nat}
    (h : ∀ x : Piece, pick (x.down n) = (pick x).map down) (pieces : List Piece) :
    (pieces.map (Piece.down n)).filterMap pick = (pieces.filterMap pick).map down := by
  rw [List.filterMap_map, List.map_filterMap]
  congr 1
  funext x
  exact h x

theorem comments_append (h : Closed a) : (ofSource ⟨name, a ++ b⟩).comments =
    (ofSource ⟨name, a⟩).comments ++ (ofSource ⟨name, b⟩).comments.map (·.down a.length) := by
  simp only [ofSource, ofPieces, pieces_append h, List.filterMap_append]
  rw [filterMap_map_down (·.down a.length), List.map_toArray, List.append_toArray]
  intro x
  cases x <;> rfl

theorem literals_append (h : Closed a) : (ofSource ⟨name, a ++ b⟩).literals =
    (ofSource ⟨name, a⟩).literals ++ (ofSource ⟨name, b⟩).literals.map (·.down a.length) := by
  simp only [ofSource, ofPieces, pieces_append h, List.filterMap_append]
  rw [filterMap_map_down (·.down a.length), List.map_toArray, List.append_toArray]
  intro x
  cases x <;> rfl

/-! ## Covered positions -/

theorem stop_line_lt_of_mem_pieces {s : Source} {x : Piece} (hx : x ∈ pieces s) :
    x.span.stop.line < s.lines.length := by
  cases x with
  | comment c =>
    have hc := mem_comments.mpr hx
    have hstart := Source.line_lt_of_byteAt? (ofSource_comments hc).byteAt?_start
    have hstop := (Region.fitsIn_of_mem_comments hc).2
    simp only [Position.le_def, Source.lastPosition] at hstop
    show c.span.stop.line < s.lines.length
    omega
  | literal l =>
    have hliteral := ofSource_literals (mem_literals.mpr hx)
    show l.stop.line < s.lines.length
    rw [hliteral.stop_line]
    rcases hliteral with ⟨hstart, -⟩ | ⟨hstart, -⟩
    · exact Source.line_lt_of_byteAt? hstart
    · exact Source.line_lt_of_byteAt? hstart

section

variable (h : Closed a)
include h

theorem map_span_comments_append : (ofSource ⟨name, a ++ b⟩).comments.toList.map Comment.span =
    (ofSource ⟨name, a⟩).comments.toList.map Comment.span ++
      ((ofSource ⟨name, b⟩).comments.toList.map Comment.span).map (·.down a.length) := by
  rw [comments_append h, Array.toList_append, Array.toList_map, List.map_append, List.map_map,
    List.map_map]
  rfl

theorem inComment_append_front {p : Position} (hp : p.line < a.length) :
    (ofSource ⟨name, a ++ b⟩).inComment p = (ofSource ⟨name, a⟩).inComment p := by
  rw [Bool.eq_iff_iff, inComment_iff_span, inComment_iff_span, map_span_comments_append h]
  exact Span.exists_mem_append_front hp

theorem inComment_append_back (p : Position) :
    (ofSource ⟨name, a ++ b⟩).inComment (p.down a.length) = (ofSource ⟨name, b⟩).inComment p := by
  rw [Bool.eq_iff_iff, inComment_iff_span, inComment_iff_span, map_span_comments_append h]
  refine Span.exists_mem_append_back fun s hs => ?_
  obtain ⟨c, hc, rfl⟩ := List.mem_map.mp hs
  exact stop_line_lt_of_mem_pieces (mem_comments.mp hc)

theorem inLiteral_append_front {p : Position} (hp : p.line < a.length) :
    (ofSource ⟨name, a ++ b⟩).inLiteral p = (ofSource ⟨name, a⟩).inLiteral p := by
  rw [Bool.eq_iff_iff, inLiteral_iff, inLiteral_iff, literals_append h, Array.toList_append,
    Array.toList_map]
  exact Span.exists_mem_append_front hp

theorem inLiteral_append_back (p : Position) :
    (ofSource ⟨name, a ++ b⟩).inLiteral (p.down a.length) = (ofSource ⟨name, b⟩).inLiteral p := by
  rw [Bool.eq_iff_iff, inLiteral_iff, inLiteral_iff, literals_append h, Array.toList_append,
    Array.toList_map]
  exact Span.exists_mem_append_back fun l hl => stop_line_lt_of_mem_pieces (mem_literals.mp hl)

theorem covers_append_front {p : Position} (hp : p.line < a.length) :
    (ofSource ⟨name, a ++ b⟩).covers p = (ofSource ⟨name, a⟩).covers p := by
  unfold covers
  rw [inComment_append_front h hp, inLiteral_append_front h hp]

theorem covers_append_back (p : Position) :
    (ofSource ⟨name, a ++ b⟩).covers (p.down a.length) = (ofSource ⟨name, b⟩).covers p := by
  unfold covers
  rw [inComment_append_back h, inLiteral_append_back h]

end

end ScopeLint.Inert
