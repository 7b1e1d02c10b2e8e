import ScopeLint.Proofs.Inert.Append
import ScopeLint.Proofs.Inert.Blanking

/-!
# Comments are overwritten in place

Comments can be blanked one after the other, row of bytes by row of bytes, each by the columns it
has in the row. All of its rows are there, and what is left is well-formed: the bytes of the blanked
lines.
-/

namespace ScopeLint.Inert

variable {s : Source} {span : Span} {rows : List (List UInt8)} {index : Nat}

/-! ## Overwriting -/

def blankCols (blank : Nat → Bool) (row : List UInt8) : List UInt8 :=
  row.mapIdx fun col b => if blank col then 32 else b

def overwriteRow (span : Span) (rows : List (List UInt8)) (index : Nat) :
    Option (List (List UInt8)) := do
  let row ← rows[index]?
  let first := if index = span.start.line then span.start.col else 0
  let behind := if index = span.stop.line then min (span.stop.col + 1) row.length else row.length
  return rows.set index (blankCols (fun col => decide (first ≤ col ∧ col < behind)) row)

def overwrite (rows : List (List UInt8)) (span : Span) : Option (List (List UInt8)) :=
  (List.range' span.start.line (span.stop.line + 1 - span.start.line)).foldlM (overwriteRow span)
    rows

/-! ## Spaces by column -/

theorem blankCols_congr {first second : Nat → Bool} {row : List UInt8}
    (h : ∀ col < row.length, first col = second col) :
    blankCols first row = blankCols second row := by
  apply List.mapIdx_eq_mapIdx_iff.mpr
  intro col hcol
  rw [h col hcol]

theorem blankCols_false (row : List UInt8) : blankCols (fun _ => false) row = row := by
  apply List.ext_getElem?
  intro col
  rw [blankCols, List.getElem?_mapIdx]
  cases row[col]? <;> rfl

theorem blankCols_blankCols (first second : Nat → Bool) (row : List UInt8) :
    blankCols second (blankCols first row) =
      blankCols (fun col => first col || second col) row := by
  rw [blankCols, blankCols, List.mapIdx_mapIdx]
  apply List.mapIdx_eq_mapIdx_iff.mpr
  intro col hcol
  rw [Function.comp_apply]
  by_cases hfirst : first col = true <;> simp [hfirst]

/-! ## Spaces by position -/

def blankWhere (blank : Position → Bool) (rows : List (List UInt8)) : List (List UInt8) :=
  rows.mapIdx fun index row => blankCols (fun col => blank ⟨index, col⟩) row

@[simp] theorem length_blankWhere (blank : Position → Bool) (rows : List (List UInt8)) :
    (blankWhere blank rows).length = rows.length :=
  List.length_mapIdx

theorem getElem?_blankWhere (blank : Position → Bool) (rows : List (List UInt8)) (index : Nat) :
    (blankWhere blank rows)[index]? =
      rows[index]?.map (blankCols fun col => blank ⟨index, col⟩) :=
  List.getElem?_mapIdx

theorem blankWhere_false (rows : List (List UInt8)) : blankWhere (fun _ => false) rows = rows := by
  apply List.ext_getElem?
  intro index
  have hself : (blankCols fun _ => false) = id := funext blankCols_false
  rw [getElem?_blankWhere, hself, Option.map_id_fun, id]

theorem blankWhere_blankWhere (first second : Position → Bool) (rows : List (List UInt8)) :
    blankWhere second (blankWhere first rows) = blankWhere (fun p => first p || second p) rows := by
  rw [blankWhere, blankWhere, List.mapIdx_mapIdx]
  apply List.mapIdx_eq_mapIdx_iff.mpr
  intro index hindex
  exact blankCols_blankCols _ _ _

/-- Steps that each put spaces by position do so all together. -/
theorem foldlM_eq_blankWhere {α : Type} {n : Nat} {items : List α}
    {step : List (List UInt8) → α → Option (List (List UInt8))} {blank : α → Position → Bool}
    (hstep : ∀ x ∈ items, ∀ rows, rows.length = n → step rows x = some (blankWhere (blank x) rows))
    (hrows : rows.length = n) :
    items.foldlM step rows = some (blankWhere (fun p => items.any (blank · p)) rows) := by
  induction items generalizing rows with
  | nil =>
    simp only [List.any_nil, blankWhere_false]
    rfl
  | cons x items ih =>
    rw [List.foldlM_cons, hstep x List.mem_cons_self rows hrows, Option.bind_eq_bind,
      Option.bind_some, ih, blankWhere_blankWhere]
    · rfl
    · exact fun y hy => hstep y (List.mem_cons_of_mem _ hy)
    · rwa [length_blankWhere]

/-! ## One row -/

theorem mem_span_iff_of_hasLine (h : span.HasLine index) {col width : Nat} (hcol : col < width) :
    (⟨index, col⟩ : Position) ∈ span ↔
      (if index = span.start.line then span.start.col else 0) ≤ col ∧
        col < if index = span.stop.line then min (span.stop.col + 1) width else width := by
  obtain ⟨hstart, hstop⟩ := h
  have hmem : (⟨index, col⟩ : Position) ∈ span ↔
      span.start ≤ ⟨index, col⟩ ∧ ⟨index, col⟩ ≤ span.stop := Iff.rfl
  rw [hmem, Position.le_def, Position.le_def]
  simp only
  split <;> split <;> omega

theorem overwriteRow_eq (hspan : span.HasLine index) (hrow : index < rows.length) :
    overwriteRow span rows index =
      some (blankWhere (fun p => decide (p.line = index ∧ p ∈ span)) rows) := by
  have hget := List.getElem?_eq_getElem hrow
  simp only [overwriteRow, hget, Option.bind_eq_bind, Option.bind_some, Option.pure_def]
  congr 1
  apply List.ext_getElem?
  intro other
  rw [getElem?_blankWhere]
  by_cases hother : index = other
  · subst hother
    rw [List.getElem?_set_self hrow, hget, Option.map_some]
    congr 1
    apply blankCols_congr
    intro col hcol
    simp only [true_and, mem_span_iff_of_hasLine hspan hcol]
  · have hself : (blankCols fun col => decide (other = index ∧ ⟨other, col⟩ ∈ span)) = id := by
      funext row
      simp only [Ne.symm hother, false_and, decide_false, blankCols_false, id]
    rw [List.getElem?_set_ne hother, hself, Option.map_id_fun, id]

/-! ## Rows of a span -/

theorem overwrite_eq (hstop : span.stop.line < rows.length) :
    overwrite rows span = some (blankWhere (fun p => decide (p ∈ span)) rows) := by
  have hstep : ∀ index ∈ List.range' span.start.line (span.stop.line + 1 - span.start.line),
      ∀ rows' : List (List UInt8), rows'.length = rows.length → overwriteRow span rows' index =
        some (blankWhere (fun p => decide (p.line = index ∧ p ∈ span)) rows') := by
    intro index hindex rows' hrows'
    rw [List.mem_range'_1] at hindex
    apply overwriteRow_eq
    · exact ⟨hindex.1, by omega⟩
    · omega
  rw [overwrite, foldlM_eq_blankWhere hstep rfl]
  congr 2
  funext p
  rw [Bool.eq_iff_iff, List.any_eq_true, decide_eq_true_eq]
  constructor
  · rintro ⟨_, -, hp⟩
    exact (of_decide_eq_true hp).2
  · intro hp
    have hline := Span.hasLine_of_mem hp
    refine ⟨p.line, ?_, decide_eq_true ⟨rfl, hp⟩⟩
    rw [List.mem_range'_1]
    exact ⟨hline.1, by have := hline.2; omega⟩

/-! ## Comments of a unit -/

theorem stop_line_lt_of_mem_comments {c : Comment} (hc : c ∈ (ofSource s).comments.toList) :
    c.span.stop.line < s.lines.length :=
  stop_line_lt_of_mem_pieces (mem_comments.mp hc)

theorem overwrite_comments (s : Source) :
    ((ofSource s).comments.toList.map Comment.span).foldlM overwrite (s.lines.map Utf8.encode) =
      some (blankWhere (ofSource s).inComment (s.lines.map Utf8.encode)) := by
  have hrows : (s.lines.map Utf8.encode).length = s.lines.length := List.length_map _
  have hstep : ∀ span ∈ (ofSource s).comments.toList.map Comment.span,
      ∀ rows : List (List UInt8), rows.length = s.lines.length →
        overwrite rows span = some (blankWhere (fun p => decide (p ∈ span)) rows) := by
    intro span hspan rows hrows
    obtain ⟨c, hc, rfl⟩ := List.mem_map.mp hspan
    apply overwrite_eq
    rw [hrows]
    exact stop_line_lt_of_mem_comments hc
  rw [foldlM_eq_blankWhere hstep hrows]
  congr 2
  funext p
  rw [Bool.eq_iff_iff, inComment_iff_span, List.any_eq_true]
  simp only [decide_eq_true_eq]

theorem blankBytes_eq_blankCols (i : Inert) (index : Nat) (bytes : List UInt8) :
    i.blankBytes index 0 bytes = blankCols (fun col => i.inComment ⟨index, col⟩) bytes := by
  apply List.ext_getElem?
  intro col
  rw [getElem?_blankBytes, blankCols, List.getElem?_mapIdx, Nat.zero_add]

theorem encode_blankLines (s : Source) : ((ofSource s).blankLines 0 s.lines).map Utf8.encode =
    blankWhere (ofSource s).inComment (s.lines.map Utf8.encode) := by
  apply List.ext_getElem?
  intro index
  rw [List.getElem?_map, getElem?_blankLines, getElem?_blankWhere, List.getElem?_map, Nat.zero_add]
  cases hline : s.lines[index]? with
  | none => rfl
  | some line =>
    rw [Option.map_some, Option.map_some, Option.map_some, Option.map_some, encode_blankLine hline,
      blankBytes_eq_blankCols]

theorem map_size_blankLines (s : Source) :
    ((ofSource s).blankLines 0 s.lines).map Line.size = s.lines.map Line.size := by
  apply List.ext_getElem?
  intro index
  rw [List.getElem?_map, List.getElem?_map, getElem?_blankLines, Nat.zero_add, Option.map_map]
  cases hline : s.lines[index]? with
  | none => rfl
  | some line =>
    rw [Option.map_some, Option.map_some, Function.comp_apply, ← Line.length_encode,
      encode_blankLine hline, length_blankBytes, Line.length_encode]

theorem byteAt?_blankLines (s : Source) (p : Position) :
    Source.byteAt? ⟨s.name, (ofSource s).blankLines 0 s.lines⟩ p =
      (s.byteAt? p).map fun b => if (ofSource s).inComment p then 32 else b := by
  unfold Source.byteAt?
  rw [getElem?_blankLines, Nat.zero_add]
  cases hline : s.lines[p.line]? with
  | none => rfl
  | some line =>
    rw [Option.map_some, Option.bind_some, Option.bind_some, Line.byteAt?, Line.byteAt?,
      encode_blankLine hline, getElem?_blankBytes, Nat.zero_add]

/-- The lines are those of the unit with spaces for the bytes of its comments, and `rows` are their
bytes, as the comments overwrite them one after the other. -/
structure BlanksComments (s : Source) (rows : List (List UInt8)) (blanked : List Line) : Prop where
  hasLine : ∀ c ∈ (ofSource s).comments.toList, ∀ index, c.span.HasLine index →
    index < s.lines.length
  overwritten : ((ofSource s).comments.toList.map Comment.span).foldlM overwrite
    (s.lines.map Utf8.encode) = some rows
  decoded : rows.map Utf8.decodeLossy = blanked
  /-- Nothing was replaced. -/
  wellFormed : rows.map Utf8.decode? = blanked.map some
  sizes_eq : blanked.map Line.size = s.lines.map Line.size
  inside : ∀ c ∈ (ofSource s).comments.toList, ∀ p ∈ c.span, ∀ b, s.byteAt? p = some b →
    Source.byteAt? ⟨s.name, blanked⟩ p = some ' '.toUInt8
  outside : ∀ p, (∀ c ∈ (ofSource s).comments.toList, p ∉ c.span) →
    Source.byteAt? ⟨s.name, blanked⟩ p = s.byteAt? p

theorem blanksComments_blankLines (s : Source) :
    ∃ rows, BlanksComments s rows ((ofSource s).blankLines 0 s.lines) := by
  refine ⟨((ofSource s).blankLines 0 s.lines).map Utf8.encode, ?_⟩
  constructor
  case hasLine =>
    intro c hc index hindex
    exact Nat.lt_of_le_of_lt hindex.2 (stop_line_lt_of_mem_comments hc)
  case overwritten => rw [overwrite_comments, encode_blankLines]
  case decoded => simp [Function.comp_def]
  case wellFormed => simp [Function.comp_def]
  case sizes_eq => exact map_size_blankLines s
  case inside =>
    intro c hc p hp b hb
    have hinside : (ofSource s).inComment p = true := inComment_iff.mpr ⟨c, hc, hp⟩
    rw [byteAt?_blankLines, hb, Option.map_some, if_pos hinside]
    rfl
  case outside =>
    intro p hp
    have houtside : ¬(ofSource s).inComment p = true := by
      rw [inComment_iff]
      rintro ⟨c, hc, hmem⟩
      exact hp c hc hmem
    rw [byteAt?_blankLines]
    simp only [if_neg houtside, Option.map_id']

/-- A comment over an empty line that ends in front of a character of three bytes. -/
example : (ofSource ⟨"unit.cpp", ["a; /* é".toList, [], "é*/漢".toList]⟩).blankLines 0
    ["a; /* é".toList, [], "é*/漢".toList] = ["a;      ".toList, [], "    漢".toList] := by
  decide +kernel

end ScopeLint.Inert
