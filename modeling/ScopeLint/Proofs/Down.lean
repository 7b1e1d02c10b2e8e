import ScopeLint.MacroDefinition
import ScopeLint.Proofs.Span
import ScopeLint.Region

/-!
# Further down

What is moved down by some lines keeps its columns, its order and what it holds.
-/

namespace ScopeLint

variable {n : Nat}

namespace Position

@[simp] theorem down_line (p : Position) (n : Nat) : (p.down n).line = p.line + n := rfl
@[simp] theorem down_col (p : Position) (n : Nat) : (p.down n).col = p.col := rfl

@[simp] theorem down_le_down {p q : Position} : p.down n ≤ q.down n ↔ p ≤ q := by
  simp only [le_def, down_line, down_col]
  omega

@[simp] theorem down_lt_down {p q : Position} : p.down n < q.down n ↔ p < q := by
  simp only [lt_def, down_line, down_col]
  omega

end Position

namespace Span

@[simp] theorem down_start (s : Span) (n : Nat) : (s.down n).start = s.start.down n := rfl
@[simp] theorem down_stop (s : Span) (n : Nat) : (s.down n).stop = s.stop.down n := rfl

theorem down_mem_down {s : Span} {p : Position} : p.down n ∈ s.down n ↔ p ∈ s :=
  and_congr Position.down_le_down Position.down_le_down

theorem notMem_down {s : Span} {p : Position} (h : p.line < n) : p ∉ s.down n := by
  rintro ⟨hstart, -⟩
  simp only [Position.le_def, down_start, Position.down_line] at hstart
  omega

theorem notMem_of_stop_line_lt {s : Span} {p : Position} (h : s.stop.line < p.line) : p ∉ s := by
  rintro ⟨-, hstop⟩
  simp only [Position.le_def] at hstop
  omega

theorem exists_mem_append_front {front back : List Span} {p : Position} (hp : p.line < n) :
    (∃ s ∈ front ++ back.map (·.down n), p ∈ s) ↔ ∃ s ∈ front, p ∈ s := by
  constructor
  · rintro ⟨s, hs, hin⟩
    rcases List.mem_append.mp hs with hs | hs
    · exact ⟨s, hs, hin⟩
    · obtain ⟨t, -, rfl⟩ := List.mem_map.mp hs
      exact absurd hin (notMem_down hp)
  · rintro ⟨s, hs, hin⟩
    exact ⟨s, List.mem_append_left _ hs, hin⟩

theorem exists_mem_append_back {front back : List Span} (hfront : ∀ s ∈ front, s.stop.line < n)
    {p : Position} :
    (∃ s ∈ front ++ back.map (·.down n), p.down n ∈ s) ↔ ∃ s ∈ back, p ∈ s := by
  constructor
  · rintro ⟨s, hs, hin⟩
    rcases List.mem_append.mp hs with hs | hs
    · refine absurd hin (notMem_of_stop_line_lt ?_)
      exact Nat.lt_of_lt_of_le (hfront s hs) (Nat.le_add_left _ _)
    · obtain ⟨t, ht, rfl⟩ := List.mem_map.mp hs
      exact ⟨t, ht, down_mem_down.mp hin⟩
  · rintro ⟨s, hs, hin⟩
    exact ⟨s.down n, List.mem_append_right _ (List.mem_map_of_mem hs), down_mem_down.mpr hin⟩

end Span

def Comment.down (c : Comment) (n : Nat) : Comment := { c with span := c.span.down n }

def Inert.Piece.down (n : Nat) : Piece → Piece
  | .comment c => .comment (c.down n)
  | .literal l => .literal (l.down n)

def Inert.Mode.down (n : Nat) : Mode → Mode
  | .code => .code
  | .block start => .block (start.down n)
  | .string start => .string (start.down n)

def MacroDefinition.down (d : MacroDefinition) (n : Nat) : MacroDefinition :=
  { d with span := d.span.down n }

def MacroDefinition.Begun.down (b : Begun) (n : Nat) : Begun := { b with start := b.start.down n }

def Unbalanced.down (u : Unbalanced) (n : Nat) : Unbalanced := { u with line := u.line + n }

namespace CodeByte

def down (b : CodeByte) (n : Nat) : CodeByte := { b with pos := b.pos.down n }

@[simp] theorem down_pos (x : CodeByte) (n : Nat) : (x.down n).pos = x.pos.down n := rfl
@[simp] theorem down_byte (x : CodeByte) (n : Nat) : (x.down n).byte = x.byte := rfl

theorem exists_down_eq {x : CodeByte} {n : Nat} (h : n ≤ x.pos.line) :
    ∃ y : CodeByte, y.down n = x := by
  obtain ⟨⟨line, col⟩, byte⟩ := x
  obtain ⟨i, rfl⟩ := Nat.exists_eq_add_of_le' h
  exact ⟨⟨⟨i, col⟩, byte⟩, rfl⟩

theorem down_injective (n : Nat) : Function.Injective fun x : CodeByte => x.down n := by
  rintro ⟨⟨line, col⟩, byte⟩ ⟨⟨line', col'⟩, byte'⟩ h
  simp only [down, Position.down, mk.injEq, Position.mk.injEq, Nat.add_right_cancel_iff] at h ⊢
  exact h

end CodeByte

end ScopeLint
