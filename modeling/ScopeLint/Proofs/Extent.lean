import ScopeLint.Extent
import ScopeLint.Proofs.Code

/-!
# Extents end in their unit

Whatever is looked for among the bytes of a code is found at or behind the place where the search
starts, and before the unit ends.
-/

namespace ScopeLint

variable {s : Source}

theorem Code.isFront_bytes (s : Source) (start : Position) :
    IsFront (fun b : CodeByte => decide (b.pos < start)) (Code.ofSource s).bytes := by
  refine (Code.pairwise_bytes s).imp fun hab hb => ?_
  simp only [decide_eq_true_eq] at hb ⊢
  exact Position.lt_of_lt_of_le hab (Position.le_of_lt hb)

theorem Code.bytesAt_eq_filter (s : Source) (start : Position) : (Code.ofSource s).bytesAt start =
    (Code.ofSource s).bytes.filter fun b => !decide (b.pos < start) :=
  dropWhile_eq_filter (Code.isFront_bytes s start)

theorem Code.mem_bytesAt {start : Position} {b : CodeByte} :
    b ∈ (Code.ofSource s).bytesAt start ↔ b ∈ (Code.ofSource s).bytes ∧ start ≤ b.pos := by
  rw [Code.bytesAt_eq_filter, List.mem_filter, ← Position.not_lt]
  simp

theorem Code.pairwise_bytesAt (s : Source) (start : Position) :
    ((Code.ofSource s).bytesAt start).Pairwise fun a b => a.pos < b.pos :=
  (Code.pairwise_bytes s).sublist (List.dropWhile_sublist _)

theorem fitsIn_of_mem_bytesAt {start : Position} {b : CodeByte}
    (h : b ∈ (Code.ofSource s).bytesAt start) : Span.FitsIn ⟨start, b.pos⟩ s := by
  obtain ⟨hbytes, hle⟩ := Code.mem_bytesAt.mp h
  exact Span.fitsIn_of_byteAt? hle (Code.mem_bytes.mp hbytes).2

def Delimiters.all : List Delimiters := [braces, bracesOrStatement, parentheses]

/-- A byte that an extent with these delimiters takes notice of. -/
def Delimiters.Marks (d : Delimiters) (b : UInt8) : Prop :=
  b = d.opening.toUInt8 ∨ b = d.closing.toUInt8 ∨ b = ';'.toUInt8

def Delimiters.IsEnd (d : Delimiters) (b : UInt8) : Prop :=
  b = d.closing.toUInt8 ∨ d.endsAtStatement = true ∧ b = ';'.toUInt8

theorem Delimiters.IsEnd.marks {d : Delimiters} {b : UInt8} (h : d.IsEnd b) : d.Marks b :=
  .inr (h.imp_right And.right)

namespace Extent

theorem exists_mem_of_read {d : Delimiters} {depth : Nat} {bytes : List CodeByte} {p : Position}
    (h : read d depth bytes = .closed p) : ∃ b ∈ bytes, b.pos = p ∧ d.IsEnd b.byte := by
  induction bytes generalizing depth with
  | nil => cases depth <;> cases h
  | cons b rest ih =>
    have hrest : ∀ {depth : Nat}, read d depth rest = .closed p →
        ∃ b' ∈ b :: rest, b'.pos = p ∧ d.IsEnd b'.byte := by
      intro depth h
      obtain ⟨b', hb', hp⟩ := ih h
      exact ⟨b', List.mem_cons_of_mem _ hb', hp⟩
    have hself : d.IsEnd b.byte → Reading.closed b.pos = .closed p →
        ∃ b' ∈ b :: rest, b'.pos = p ∧ d.IsEnd b'.byte := fun hend h =>
      ⟨b, List.mem_cons_self, Reading.closed.inj h, hend⟩
    cases depth with
    | zero =>
      rw [read] at h
      split at h
      · exact hrest h
      · split at h
        · rename_i hstatement
          exact hself (.inr hstatement) h
        · exact hrest h
    | succ depth =>
      rw [read] at h
      split at h
      · split at h
        · simp at h
        · exact hrest h
      · split at h
        · rename_i hclosing
          split at h
          · exact hself (.inl hclosing) h
          · exact hrest h
        · exact hrest h

theorem exists_of_resolve {code : Code} {start p : Position} {d : Delimiters}
    (h : resolve code start d = .ok p) :
    ∃ b ∈ code.bytesAt start, b.pos = p ∧ d.IsEnd b.byte := by
  unfold resolve at h
  split at h
  · rename_i q hread
    obtain rfl := Except.ok.inj h
    exact exists_mem_of_read hread
  · simp at h
  · simp at h

theorem fitsIn_of_resolve {start p : Position} {d : Delimiters}
    (h : resolve (Code.ofSource s) start d = .ok p) : Span.FitsIn ⟨start, p⟩ s := by
  obtain ⟨b, hb, rfl, -⟩ := exists_of_resolve h
  exact fitsIn_of_mem_bytesAt hb

theorem fitsIn_of_nextCode? {start : Position} {b : CodeByte}
    (h : nextCode? (Code.ofSource s) start = some b) : Span.FitsIn ⟨start, b.pos⟩ s :=
  fitsIn_of_mem_bytesAt (List.mem_of_find?_eq_some h)

theorem le_behind (p : Position) : p ≤ behind p := Position.le_after p 1

theorem fitsIn_of_loopStatement? {afterWord p : Position}
    (h : loopStatement? (Code.ofSource s) afterWord = some p) :
    Span.FitsIn ⟨afterWord, p⟩ s := by
  unfold loopStatement? at h
  obtain ⟨opening, hopening, h⟩ := Option.bind_eq_some_iff.mp h
  obtain ⟨_, -, h⟩ := Option.bind_eq_some_iff.mp h
  split at h
  · simp at h
  · rename_i closing hclosing
    obtain ⟨statement, hstatement, h⟩ := Option.bind_eq_some_iff.mp h
    obtain ⟨_, -, h⟩ := Option.bind_eq_some_iff.mp h
    obtain rfl := Option.some.inj h
    have hstop := fitsIn_of_nextCode? hstatement
    have hgroup := (fitsIn_of_nextCode? hopening).1
    have hbody := (fitsIn_of_resolve hclosing).1
    exact hstop.widen (Position.le_trans hgroup (Position.le_trans hbody (le_behind closing)))

end Extent

end ScopeLint
