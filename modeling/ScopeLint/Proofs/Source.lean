import ScopeLint.Proofs.Span
import ScopeLint.Proofs.Text.Line
import ScopeLint.Source

/-!
# The bytes of a unit

A unit has a byte at each column of each of its lines and nowhere else, and none of them stands
behind its last position.
-/

namespace ScopeLint

namespace Source

variable {s : Source}

theorem line_eq {index : Nat} {line : Line} (h : s.lines[index]? = some line) :
    s.line index = line := by
  unfold Source.line
  rw [h, Option.getD_some]

theorem byteAt?_eq {index : Nat} {line : Line} (h : s.lines[index]? = some line) (col : Nat) :
    s.byteAt? ⟨index, col⟩ = (Utf8.encode line)[col]? := by
  unfold byteAt?
  rw [h, Option.bind_some, Line.byteAt?]

theorem line_lt_of_byteAt? {p : Position} {b : UInt8} (h : s.byteAt? p = some b) :
    p.line < s.lines.length := by
  unfold byteAt? at h
  rw [Option.bind_eq_some_iff] at h
  obtain ⟨line, hline, -⟩ := h
  exact (List.getElem?_eq_some_iff.mp hline).1

theorem col_lt_of_byteAt? {p : Position} {b : UInt8} (h : s.byteAt? p = some b) :
    p.col < (s.line p.line).size := by
  unfold byteAt? at h
  rw [Option.bind_eq_some_iff] at h
  obtain ⟨line, hline, hb⟩ := h
  rw [line_eq hline, ← Line.length_encode]
  exact (List.getElem?_eq_some_iff.mp hb).1

theorem byteAt?_eq_none_of_col {p : Position} (h : (s.line p.line).size ≤ p.col) :
    s.byteAt? p = none := by
  cases hb : s.byteAt? p with
  | none => rfl
  | some b => have := col_lt_of_byteAt? hb; omega

theorem byteAt?_eq_none_of_line {p : Position} (h : s.lines.length ≤ p.line) :
    s.byteAt? p = none := by
  cases hb : s.byteAt? p with
  | none => rfl
  | some b => have := line_lt_of_byteAt? hb; omega

theorem le_lastPosition {p : Position} (hline : p.line < s.lines.length)
    (hcol : p.col ≤ (s.line p.line).lastCol) : p ≤ s.lastPosition := by
  rw [Position.le_def, lastPosition]
  by_cases hlast : p.line = s.lines.length - 1
  · rw [hlast] at hcol
    exact .inr ⟨hlast, hcol⟩
  · left
    show p.line < s.lines.length - 1
    omega

theorem le_lastPosition_of_byteAt? {p : Position} {b : UInt8} (h : s.byteAt? p = some b) :
    p ≤ s.lastPosition := by
  refine le_lastPosition (line_lt_of_byteAt? h) ?_
  have := col_lt_of_byteAt? h
  rw [Line.lastCol]
  omega

theorem byteAt?_eq_none_of_lastPosition_lt {p : Position} (h : s.lastPosition < p) :
    s.byteAt? p = none := by
  cases hb : s.byteAt? p with
  | none => rfl
  | some b => exact absurd (le_lastPosition_of_byteAt? hb) (Position.not_le.mpr h)

theorem mem_zipIdx_lines_iff {x : Line × Nat} :
    x ∈ s.lines.zipIdx ↔ x.2 < s.lines.length ∧ x.1 = s.line x.2 := by
  rw [List.mem_zipIdx_iff_getElem?]
  refine ⟨fun h => ⟨(List.getElem?_eq_some_iff.mp h).1, (line_eq h).symm⟩, fun ⟨hlt, hx⟩ => ?_⟩
  rw [hx, line, List.getElem?_eq_getElem hlt, Option.getD_some]

/-! ## Places -/

/-- The position is that of a byte or the end of a line. A unit without lines has its start. -/
def HasPlace (s : Source) (p : Position) : Prop :=
  p.line < max 1 s.lines.length ∧ p.col ≤ (s.line p.line).size

theorem hasPlace_origin : s.HasPlace ⟨0, 0⟩ :=
  ⟨Nat.lt_of_lt_of_le Nat.zero_lt_one (Nat.le_max_left _ _), Nat.zero_le _⟩

theorem hasPlace_of_line {index col : Nat} {line : Line} (h : s.lines[index]? = some line)
    (hcol : col ≤ line.size) : s.HasPlace ⟨index, col⟩ := by
  refine ⟨Nat.lt_of_lt_of_le (List.getElem?_eq_some_iff.mp h).1 (Nat.le_max_right _ _), ?_⟩
  rwa [line_eq h]

theorem hasPlace_of_byteAt? {p : Position} {b : UInt8} (h : s.byteAt? p = some b) :
    s.HasPlace p :=
  ⟨Nat.lt_of_lt_of_le (line_lt_of_byteAt? h) (Nat.le_max_right _ _),
    Nat.le_of_lt (col_lt_of_byteAt? h)⟩

/-! ## Units with lines of the same sizes -/

theorem length_lines_eq {a b : Source} (h : a.lines.map Line.size = b.lines.map Line.size) :
    a.lines.length = b.lines.length := by
  rw [← List.length_map, h, List.length_map]

theorem size_line_eq {a b : Source} (h : a.lines.map Line.size = b.lines.map Line.size)
    (index : Nat) : (a.line index).size = (b.line index).size := by
  have hsize : ∀ s : Source, (s.line index).size = ((s.lines.map Line.size)[index]?).getD 0 := by
    intro s
    unfold Source.line
    rw [List.getElem?_map]
    cases s.lines[index]? <;> rfl
  rw [hsize, hsize, h]

theorem byteAt?_eq_of_forall_lt {a b : Source} {P : Position → Prop}
    (hsizes : a.lines.map Line.size = b.lines.map Line.size)
    (h : ∀ line < a.lines.length, ∀ col < (a.line line).size, P ⟨line, col⟩ →
      a.byteAt? ⟨line, col⟩ = b.byteAt? ⟨line, col⟩) :
    ∀ p, P p → a.byteAt? p = b.byteAt? p := by
  intro p hp
  by_cases hline : p.line < a.lines.length
  · by_cases hcol : p.col < (a.line p.line).size
    · exact h p.line hline p.col hcol hp
    · rw [byteAt?_eq_none_of_col (by omega), byteAt?_eq_none_of_col]
      rw [← size_line_eq hsizes]
      omega
  · rw [byteAt?_eq_none_of_line (by omega), byteAt?_eq_none_of_line]
    rw [← length_lines_eq hsizes]
    omega

end Source

/-! ## Spans in a unit -/

/-- The span ends where it starts or behind, and neither behind the unit nor behind a line. -/
structure Span.FitsIn (span : Span) (s : Source) : Prop where
  start_le : span.start ≤ span.stop
  stop_le : span.stop ≤ s.lastPosition
  stop_col_le : span.stop.col ≤ (s.line span.stop.line).lastCol

namespace Span

variable {s : Source} {start start' stop : Position}

theorem fitsIn_of_lt (hle : start ≤ stop) (hline : stop.line < s.lines.length)
    (hcol : stop.col ≤ (s.line stop.line).lastCol) : Span.FitsIn ⟨start, stop⟩ s :=
  ⟨hle, Source.le_lastPosition hline hcol, hcol⟩

theorem fitsIn_of_byteAt? {b : UInt8} (hle : start ≤ stop) (h : s.byteAt? stop = some b) :
    Span.FitsIn ⟨start, stop⟩ s := by
  refine fitsIn_of_lt hle (Source.line_lt_of_byteAt? h) ?_
  have hcol := Source.col_lt_of_byteAt? h
  rw [Line.lastCol]
  omega

theorem FitsIn.widen (h : Span.FitsIn ⟨start, stop⟩ s) (hle : start' ≤ start) :
    Span.FitsIn ⟨start', stop⟩ s :=
  ⟨Position.le_trans hle h.start_le, h.stop_le, h.stop_col_le⟩

end Span

end ScopeLint
