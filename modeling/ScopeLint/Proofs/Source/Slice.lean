import ScopeLint.Proofs.Source.Text
import ScopeLint.Proofs.Text.Boundary

/-!
# Slices of a unit

A slice has one piece for each line of the unit from the first to the last one asked for, wherever
its two ends are: behind a line, behind the unit, inside a character or in the wrong order. One
column is taken for another: the last number of 64 bits has none behind it, so that a slice to this
column, meant to take all of the line, takes nothing of it.
-/

namespace ScopeLint.Source

variable {s : Source} {start stop behind : Position} {index : Nat}

theorem piecesFrom_eq_mapIdx (h : start.line ≤ index) (lines : List Line) :
    piecesFrom start behind index lines =
      (lines.take (behind.line + 1 - index)).mapIdx fun n line =>
        pieceOf start behind (index + n) line := by
  induction lines generalizing index with
  | nil => simp [piecesFrom]
  | cons line lines ih =>
    rw [piecesFrom_cons]
    by_cases hbehind : index ≤ behind.line
    · rw [if_pos ⟨h, hbehind⟩, ih (Nat.le_succ_of_le h), Nat.succ_sub hbehind,
        List.take_succ_cons, List.mapIdx_cons, Nat.succ_sub_succ]
      simp only [Nat.add_zero, Nat.succ_add_eq_add_succ]
    · rw [if_neg (by omega), piecesFrom_eq_nil (.inl (by omega)), Nat.sub_eq_zero_of_le (by omega)]
      rfl

theorem slice_eq_mapIdx (s : Source) (start stop : Position) :
    s.slice start stop =
      ((s.lines.drop start.line).take (stop.line + 1 - start.line)).mapIdx fun n line =>
        pieceOf start ⟨stop.line, succ64 stop.col⟩ (start.line + n) line := by
  have hmap := @piecesFrom_eq_mapIdx start ⟨stop.line, succ64 stop.col⟩ _ (Nat.le_refl _)
  rw [← hmap, slice, pieces_eq_piecesFrom]
  by_cases hline : start.line ≤ s.lines.length
  · have hlength := List.length_take_of_le hline
    conv => lhs; rw [← List.take_append_drop start.line s.lines]
    rw [piecesFrom_append, piecesFrom_eq_nil (.inr (by omega)), List.nil_append, Nat.zero_add,
      hlength]
  · rw [List.drop_eq_nil_of_le (by omega), piecesFrom_eq_nil (.inr (by omega))]
    rfl

/-! ## Columns asked for -/

def firstCol (start : Position) (index : Nat) : Nat := if index = start.line then start.col else 0

def behindCol (stop : Position) (index : Nat) (line : Line) : Nat :=
  if index = stop.line then stop.col + 1 else line.size

/-- The number of 64 bits that is taken for that column. -/
def takenCol (stop : Position) (index : Nat) (line : Line) : Nat :=
  if index = stop.line then succ64 stop.col else line.size

theorem takenCol_eq_behindCol {line : Line} (h : index = stop.line → stop.col + 1 < UInt64.size) :
    takenCol stop index line = behindCol stop index line := by
  rw [takenCol, behindCol]
  split
  · rename_i hindex
    exact succ64_of_lt (h hindex)
  · rfl

theorem takenCol_eq_zero {line : Line} (hindex : index = stop.line)
    (h : stop.col = UInt64.size - 1) : takenCol stop index line = 0 := by
  rw [takenCol, if_pos hindex, h, succ64_last]

/-- The piece of a line: found step by step, and the least run of its characters with the columns
asked for, if it has any of them. To the last number of 64 bits nothing is found. -/
structure IsPieceOf (start stop : Position) (index : Nat) (line part : Line) : Prop where
  walked : line.walkedSlice? (firstCol start index) (takenCol stop index line) = some part
  least : (index = stop.line → stop.col + 1 < UInt64.size) →
    firstCol start index < min (behindCol stop index line) line.size →
      line.IsLeastRun (firstCol start index) (min (behindCol stop index line) line.size) part
  lost : index = stop.line → stop.col = UInt64.size - 1 → part = []

theorem isPieceOf_pieceOf (start stop : Position) (index : Nat) (line : Line) :
    IsPieceOf start stop index line
      (pieceOf start ⟨stop.line, succ64 stop.col⟩ index line) := by
  have hpiece : pieceOf start ⟨stop.line, succ64 stop.col⟩ index line =
    line.slice (firstCol start index) (takenCol stop index line) := rfl
  rw [hpiece]
  constructor
  case walked => exact line.walkedSlice?_eq _ _
  case least =>
    intro hstop hcols
    rw [takenCol_eq_behindCol hstop]
    exact line.isLeastRun_slice hcols
  case lost =>
    intro hindex hstop
    rw [takenCol_eq_zero hindex hstop]
    exact Line.sliceFrom_eq_nil (.inr (Nat.le_refl _))

/-! ## Pieces of a slice -/

/-- One piece for each line there is from the line of `start` to the line of `stop`. -/
structure CutsInto (s : Source) (start stop : Position) (pieces : List Line) : Prop where
  length_eq : pieces.length = min (stop.line + 1) s.lines.length - start.line
  eq_nil : stop.line < start.line → pieces = []
  piece : ∀ n line, s.lines[start.line + n]? = some line → start.line + n ≤ stop.line →
    ∃ part, pieces[n]? = some part ∧ IsPieceOf start stop (start.line + n) line part

/-- Between any two positions a slice has the pieces that are asked for, but for an end at the last
number of 64 bits. -/
theorem cutsInto_slice (s : Source) (start stop : Position) :
    s.CutsInto start stop (s.slice start stop) := by
  rw [slice_eq_mapIdx]
  constructor
  case length_eq =>
    rw [List.length_mapIdx, List.length_take, List.length_drop]
    omega
  case eq_nil =>
    intro h
    rw [Nat.sub_eq_zero_of_le h]
    rfl
  case piece =>
    intro n line hline hstop
    refine ⟨pieceOf start ⟨stop.line, succ64 stop.col⟩ (start.line + n) line, ?_,
      isPieceOf_pieceOf _ _ _ _⟩
    rw [List.getElem?_mapIdx, List.getElem?_take_of_lt (by omega), List.getElem?_drop, hline]
    rfl

/-- An end inside a character, and one behind the unit. -/
example : Source.slice ⟨"unit.cpp", ["aé".toList, "".toList, "漢;".toList]⟩ ⟨0, 2⟩ ⟨9, 0⟩ =
    ["é".toList, [], "漢;".toList] := by
  decide +kernel

/-- From column 0 to the last number there is, a line of two characters is asked for as a whole. -/
theorem slice_to_last_number :
    Source.slice ⟨"unit.cpp", ["ab".toList]⟩ ⟨0, 0⟩ ⟨0, UInt64.size - 1⟩ = [[]] ∧
      firstCol ⟨0, 0⟩ 0 = 0 ∧ min (behindCol ⟨0, UInt64.size - 1⟩ 0 "ab".toList) 2 = 2 ∧
      ¬Line.IsLeastRun "ab".toList 0 2 [] := by
  refine ⟨by decide +kernel, rfl, by decide +kernel, ?_⟩
  rintro ⟨front, back, ⟨-, hfront, hsize⟩, -⟩
  rw [Line.size, Nat.add_zero] at hsize
  omega

end ScopeLint.Source
