import ScopeLint.Inert
import ScopeLint.Proofs.Source

/-!
# What comments and literals are

The rules for comments and literals, stated of the bytes of a unit and not of a reader: where each
of them may start, where it ends, and what stands between them.
-/

namespace ScopeLint.Inert

variable {s : Source}

/-! ## Ends -/

/-- What opens here stops with the first position that closes it, which takes `width` bytes more,
and at `unclosed` if no position does. -/
def StopsAt (closes : Position → Prop) (width : Nat) (unclosed stop : Position) : Prop :=
  (∃ p, closes p ∧ (∀ q, q < p → ¬closes q) ∧ stop = p.after width) ∨
    (∀ q, ¬closes q) ∧ stop = unclosed

/-- A `*/` at `p` that closes a block comment opened at `start`: it shares no byte with the `/*`. -/
def ClosesBlock (s : Source) (start p : Position) : Prop :=
  start.after 2 ≤ p ∧ s.byteAt? p = some star ∧ s.byteAt? (p.after 1) = some slash

/-- How many backslashes stand directly in front of column `col`, inside a string opened at
`start`. -/
def backslashesBefore (s : Source) (start : Position) : Nat → Nat
  | 0 => 0
  | col + 1 =>
    if start.col < col ∧ s.byteAt? ⟨start.line, col⟩ = some backslash then
      backslashesBefore s start col + 1
    else 0

/-- A quote at `p` that closes a string opened at `start`: it is on the same line and not
escaped. -/
def ClosesString (s : Source) (start p : Position) : Prop :=
  p.line = start.line ∧ start.col < p.col ∧ s.byteAt? p = some doubleQuote ∧
    backslashesBefore s start p.col % 2 = 0

def lineEnd (s : Source) (p : Position) : Position := ⟨p.line, (s.line p.line).lastCol⟩

/-! ## Comments, literals and plain bytes -/

def IsComment (s : Source) (c : Comment) : Prop :=
  s.byteAt? c.span.start = some slash ∧
    match c.style with
    | .singleLine =>
      s.byteAt? (c.span.start.after 1) = some slash ∧ c.span.stop = lineEnd s c.span.start
    | .multiLine =>
      s.byteAt? (c.span.start.after 1) = some star ∧
        StopsAt (ClosesBlock s c.span.start) 1 s.lastPosition c.span.stop

/-- A string, or a character literal: that one is two bytes longer than its quote, and three if a
backslash follows, as far as the line goes. -/
def IsLiteral (s : Source) (l : Span) : Prop :=
  s.byteAt? l.start = some doubleQuote ∧
      StopsAt (ClosesString s l.start) 0 (lineEnd s l.start) l.stop ∨
    s.byteAt? l.start = some singleQuote ∧
      l.stop = ⟨l.start.line,
        min (l.start.col + if s.byteAt? (l.start.after 1) = some backslash then 3 else 2)
          (lineEnd s l.start).col⟩

def IsPiece (s : Source) : Piece → Prop
  | .comment c => IsComment s c
  | .literal l => IsLiteral s l

/-- A byte that opens neither a comment nor a literal; where there is no byte, nothing opens. -/
def IsPlain (s : Source) (p : Position) : Prop :=
  ∀ b, s.byteAt? p = some b →
    b ≠ doubleQuote ∧ b ≠ singleQuote ∧
      ¬(b = slash ∧
        (s.byteAt? (p.after 1) = some slash ∨ s.byteAt? (p.after 1) = some star))

/-- From `p` on the unit is made of these pieces and of plain bytes in front of, between and behind
them. -/
def Tiled (s : Source) : Position → List Piece → Prop
  | p, [] => ∀ q, p ≤ q → IsPlain s q
  | p, x :: rest =>
    (∀ q, p ≤ q → q < x.span.start → IsPlain s q) ∧ p ≤ x.span.start ∧
      x.span.start ≤ x.span.stop ∧ IsPiece s x ∧ Tiled s (x.span.stop.after 1) rest

/-! ## Plain stretches -/

theorem isPlain_of_none {p : Position} (h : s.byteAt? p = none) : IsPlain s p := by
  intro b hb
  rw [h] at hb
  cases hb

theorem Tiled.extend {p q : Position} {pieces : List Piece} (h : Tiled s q pieces) (hle : p ≤ q)
    (hplain : ∀ r, p ≤ r → r < q → IsPlain s r) : Tiled s p pieces := by
  cases pieces with
  | nil =>
    intro r hr
    by_cases hq : q ≤ r
    · exact h r hq
    · exact hplain r hr (Position.not_le.mp hq)
  | cons x rest =>
    obtain ⟨hfront, hstart, hrest⟩ := h
    refine ⟨?_, Position.le_trans hle hstart, hrest⟩
    intro r hr hx
    by_cases hq : q ≤ r
    · exact hfront r hq hx
    · exact hplain r hr (Position.not_le.mp hq)

/-! ## What a tiling says of its pieces -/

theorem Tiled.isPiece {p : Position} {pieces : List Piece} (h : Tiled s p pieces) {x : Piece}
    (hx : x ∈ pieces) : IsPiece s x ∧ x.span.start ≤ x.span.stop := by
  induction pieces generalizing p with
  | nil => simp at hx
  | cons y rest ih =>
    obtain ⟨-, -, hle, hpiece, hrest⟩ := h
    rcases List.mem_cons.mp hx with rfl | hx
    · exact ⟨hpiece, hle⟩
    · exact ih hrest hx

theorem Tiled.le_start {p : Position} {pieces : List Piece} (h : Tiled s p pieces) {x : Piece}
    (hx : x ∈ pieces) : p ≤ x.span.start := by
  induction pieces generalizing p with
  | nil => simp at hx
  | cons y rest ih =>
    obtain ⟨-, hp, hle, -, hrest⟩ := h
    rcases List.mem_cons.mp hx with rfl | hx
    · exact hp
    · have := ih hrest hx
      exact Position.le_trans hp (Position.le_trans hle
        (Position.le_trans (Position.le_after _ 1) this))

theorem Tiled.pairwise {p : Position} {pieces : List Piece} (h : Tiled s p pieces) :
    pieces.Pairwise fun x y => x.span.stop < y.span.start := by
  induction pieces generalizing p with
  | nil => exact .nil
  | cons x rest ih =>
    obtain ⟨-, -, -, -, hrest⟩ := h
    refine .cons ?_ (ih hrest)
    intro y hy
    exact Position.lt_of_lt_of_le (Position.lt_after _) (hrest.le_start hy)

theorem Tiled.isPlain {p q : Position} {pieces : List Piece} (h : Tiled s p pieces) (hq : p ≤ q)
    (hout : ∀ x ∈ pieces, q ∉ x.span) : IsPlain s q := by
  induction pieces generalizing p with
  | nil => exact h q hq
  | cons x rest ih =>
    obtain ⟨hfront, -, -, -, hrest⟩ := h
    by_cases hx : q < x.span.start
    · exact hfront q hq hx
    · have hstop : x.span.stop < q := by
        have hstart : x.span.start ≤ q := Position.not_lt.mp hx
        exact Position.not_le.mp fun hle => hout x List.mem_cons_self ⟨hstart, hle⟩
      exact ih hrest (Position.after_one_le.mpr hstop)
        fun y hy => hout y (List.mem_cons_of_mem _ hy)

end ScopeLint.Inert
