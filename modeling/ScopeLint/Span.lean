import ScopeLint.Sort

/-!
# Positions and spans

A position is a line and a byte column, both counted from 0; positions are ordered as they are
read. A span holds both of its ends.
-/

namespace ScopeLint

/-- The number after `n` in 64 bits: after the last one comes 0. Lines and columns that a caller
gives may be any of these numbers; those of a unit are far below the last one. -/
def succ64 (n : Nat) : Nat := (n + 1) % UInt64.size

theorem succ64_of_lt {n : Nat} (h : n + 1 < UInt64.size) : succ64 n = n + 1 := Nat.mod_eq_of_lt h

theorem succ64_last : succ64 (UInt64.size - 1) = 0 := rfl

@[ext] structure Position where
  line : Nat
  col : Nat
  deriving DecidableEq, Repr, Inhabited

namespace Position

instance : LE Position := ⟨fun a b => a.line < b.line ∨ a.line = b.line ∧ a.col ≤ b.col⟩
instance : LT Position := ⟨fun a b => a.line < b.line ∨ a.line = b.line ∧ a.col < b.col⟩

instance (a b : Position) : Decidable (a ≤ b) :=
  inferInstanceAs (Decidable (a.line < b.line ∨ a.line = b.line ∧ a.col ≤ b.col))

instance (a b : Position) : Decidable (a < b) :=
  inferInstanceAs (Decidable (a.line < b.line ∨ a.line = b.line ∧ a.col < b.col))

/-- The same column, `lines` further down. -/
def down (p : Position) (lines : Nat) : Position := ⟨p.line + lines, p.col⟩

theorem le_def (a b : Position) :
    a ≤ b ↔ a.line < b.line ∨ a.line = b.line ∧ a.col ≤ b.col := Iff.rfl

theorem lt_def (a b : Position) :
    a < b ↔ a.line < b.line ∨ a.line = b.line ∧ a.col < b.col := Iff.rfl

theorem le_refl (a : Position) : a ≤ a := by rw [le_def]; omega

theorem le_trans {a b c : Position} (h : a ≤ b) (k : b ≤ c) : a ≤ c := by
  rw [le_def] at *; omega

theorem le_antisymm {a b : Position} (h : a ≤ b) (k : b ≤ a) : a = b := by
  rw [le_def] at h k
  exact Position.ext (by omega) (by omega)

theorem not_le {a b : Position} : ¬a ≤ b ↔ b < a := by rw [le_def, lt_def]; omega

end Position

/-- The bytes from `start` to `stop`, both included. -/
@[ext] structure Span where
  start : Position
  stop : Position
  deriving DecidableEq, Repr, Inhabited

namespace Span

/-- The columns from `first` to `last` of one line. -/
def onLine (line first last : Nat) : Span := ⟨⟨line, first⟩, ⟨line, last⟩⟩

def Within (inner outer : Span) : Prop := outer.start ≤ inner.start ∧ inner.stop ≤ outer.stop

instance (inner outer : Span) : Decidable (inner.Within outer) :=
  inferInstanceAs (Decidable (_ ∧ _))

/-- Within and not the same: no span is strictly within itself. -/
def StrictlyWithin (inner outer : Span) : Prop := inner ≠ outer ∧ inner.Within outer

instance (inner outer : Span) : Decidable (inner.StrictlyWithin outer) :=
  inferInstanceAs (Decidable (_ ∧ _))

instance : Membership Position Span := ⟨fun s p => s.start ≤ p ∧ p ≤ s.stop⟩

instance (p : Position) (s : Span) : Decidable (p ∈ s) :=
  inferInstanceAs (Decidable (s.start ≤ p ∧ p ≤ s.stop))

def HasLine (s : Span) (line : Nat) : Prop := s.start.line ≤ line ∧ line ≤ s.stop.line

instance (s : Span) (line : Nat) : Decidable (s.HasLine line) :=
  inferInstanceAs (Decidable (_ ∧ _))

/-- The position behind the last byte. -/
def behind (s : Span) : Position := ⟨s.stop.line, s.stop.col + 1⟩

@[simp] theorem behind_line (s : Span) : s.behind.line = s.stop.line := rfl

@[simp] theorem behind_col (s : Span) : s.behind.col = s.stop.col + 1 := rfl

/-- Both ends as line and column. -/
def text (s : Span) : String :=
  s!"{s.start.line}:{s.start.col}-{s.stop.line}:{s.stop.col}"

/-- The same columns, `lines` further down. -/
def down (s : Span) (lines : Nat) : Span := ⟨s.start.down lines, s.stop.down lines⟩

end Span

/-- The item whose span holds `p`, among items sorted by spans that do not overlap. -/
def findContaining {α : Type} (span : α → Span) (items : Array α) (p : Position) : Option α :=
  (lastInFront? (fun item => (span item).start ≤ p) items).filter fun item => p ∈ span item

end ScopeLint
