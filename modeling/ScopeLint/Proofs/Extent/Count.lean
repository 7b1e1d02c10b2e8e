import Mathlib.Data.List.Induction
import ScopeLint.Proofs.Extent

/-!
# Extents by counting brackets

A reading keeps the number of open groups. Counting tells the same: a group ends at the first byte
up to which as many brackets are closed as are opened, unless more than 128 are open before.
-/

namespace ScopeLint.Extent

variable {d : Delimiters} {depth : Nat} {b : CodeByte} {bytes front back : List CodeByte}

/-! ## Counts -/

def openings (d : Delimiters) (bytes : List CodeByte) : Nat :=
  bytes.countP fun b => decide (b.byte = d.opening.toUInt8)

def closings (d : Delimiters) (bytes : List CodeByte) : Nat :=
  bytes.countP fun b => decide (b.byte = d.closing.toUInt8)

@[simp] theorem openings_nil (d : Delimiters) : openings d [] = 0 := rfl

@[simp] theorem closings_nil (d : Delimiters) : closings d [] = 0 := rfl

@[simp] theorem openings_append (d : Delimiters) (bytes more : List CodeByte) :
    openings d (bytes ++ more) = openings d bytes + openings d more :=
  List.countP_append

@[simp] theorem closings_append (d : Delimiters) (bytes more : List CodeByte) :
    closings d (bytes ++ more) = closings d bytes + closings d more :=
  List.countP_append

inductive Counts (d : Delimiters) (b : CodeByte) : Prop where
  | opens (hb : b.byte = d.opening.toUInt8) (hopenings : openings d [b] = 1)
      (hclosings : closings d [b] = 0)
  | closes (hb : b.byte = d.closing.toUInt8) (hopening : b.byte ≠ d.opening.toUInt8)
      (hopenings : openings d [b] = 0) (hclosings : closings d [b] = 1)
  | neither (hopening : b.byte ≠ d.opening.toUInt8) (hclosing : b.byte ≠ d.closing.toUInt8)
      (hopenings : openings d [b] = 0) (hclosings : closings d [b] = 0)

theorem counts (hd : d.opening.toUInt8 ≠ d.closing.toUInt8) (b : CodeByte) : Counts d b := by
  by_cases hopening : b.byte = d.opening.toUInt8
  · refine .opens hopening ?_ ?_ <;> simp [openings, closings, hopening, hd]
  · by_cases hclosing : b.byte = d.closing.toUInt8
    · refine .closes hclosing hopening ?_ ?_ <;> simp [openings, closings, hclosing, hd.symm]
    · refine .neither hopening hclosing ?_ ?_ <;> simp [openings, closings, hopening, hclosing]

/-! ## Open groups -/

/-- With `depth` groups open in front of the bytes, some are open behind them, and no more than the
limit. -/
def IsOpen (d : Delimiters) (depth : Nat) (bytes : List CodeByte) : Prop :=
  closings d bytes ≠ depth + openings d bytes ∧
    depth + openings d bytes ≤ closings d bytes + depthLimit

def StaysOpen (d : Delimiters) (depth : Nat) (bytes : List CodeByte) : Prop :=
  ∀ part, part <+: bytes → IsOpen d depth part

def depthBehind (d : Delimiters) (depth : Nat) (bytes : List CodeByte) : Nat :=
  depth + openings d bytes - closings d bytes

theorem staysOpen_concat : StaysOpen d depth (bytes ++ [b]) ↔
    StaysOpen d depth bytes ∧ IsOpen d depth (bytes ++ [b]) := by
  simp only [StaysOpen, List.prefix_concat_iff]
  constructor
  · exact fun h => ⟨fun part hpart => h part (.inr hpart), h _ (.inl rfl)⟩
  · rintro ⟨hbytes, hb⟩ part (rfl | hpart)
    · exact hb
    · exact hbytes part hpart

theorem StaysOpen.isOpen (h : StaysOpen d depth bytes) : IsOpen d depth bytes :=
  h bytes List.prefix_rfl

/-- One byte closes one group at most, so that as many as there are cannot be passed by. -/
theorem StaysOpen.closings_lt (h : StaysOpen d depth bytes) :
    closings d bytes < depth + openings d bytes := by
  induction bytes using List.reverseRecOn with
  | nil =>
    have hopen := h.isOpen.1
    simp only [closings_nil, openings_nil] at hopen ⊢
    omega
  | append_singleton bytes b ih =>
    obtain ⟨hbytes, hopen, -⟩ := staysOpen_concat.mp h
    have hlt := ih hbytes
    have hone : closings d [b] ≤ 1 := List.countP_le_length
    simp only [closings_append, openings_append] at hopen ⊢
    omega

theorem StaysOpen.isOpen_append (h : StaysOpen d depth front) (part : List CodeByte) :
    IsOpen d depth (front ++ part) ↔ IsOpen d (depthBehind d depth front) part := by
  have hlt := h.closings_lt
  simp only [IsOpen, depthBehind, closings_append, openings_append]
  omega

/-- Groups stay open up to `b`, and behind it there are `excess`: none, or one too many. -/
structure LeavesAt (d : Delimiters) (depth : Nat) (front : List CodeByte) (b : CodeByte)
    (excess : Nat) : Prop where
  staysOpen : StaysOpen d depth front
  openings_eq : depth + openings d (front ++ [b]) = closings d (front ++ [b]) + excess

theorem LeavesAt.depthBehind_eq {excess : Nat} (h : LeavesAt d depth front b excess) :
    depthBehind d depth front + openings d [b] = closings d [b] + excess ∧
      0 < depthBehind d depth front ∧ depthBehind d depth front ≤ depthLimit := by
  have hlt := h.staysOpen.closings_lt
  have hlimit := h.staysOpen.isOpen.2
  have heq := h.openings_eq
  simp only [openings_append, closings_append] at heq
  unfold depthBehind
  omega

inductive Ends (d : Delimiters) (depth : Nat) : List CodeByte → Reading → Prop where
  | closed {front rest : List CodeByte} {b : CodeByte} (h : LeavesAt d depth front b 0) :
      Ends d depth (front ++ b :: rest) (.closed b.pos)
  | tooDeep {front rest : List CodeByte} {b : CodeByte}
      (h : LeavesAt d depth front b (depthLimit + 1)) :
      Ends d depth (front ++ b :: rest) (.tooDeep b.pos.line)
  | unclosed {bytes : List CodeByte} (h : StaysOpen d depth bytes) : Ends d depth bytes .unclosed

/-! ## Reading -/

section

variable (hd : d.opening.toUInt8 ≠ d.closing.toUInt8)

include hd

theorem read_cons_of_isOpen (h : IsOpen d depth []) (hb : IsOpen d depth [b])
    (rest : List CodeByte) :
    read d depth (b :: rest) = read d (depthBehind d depth [b]) rest := by
  unfold IsOpen depthLimit at h hb
  cases depth with
  | zero => simp at h
  | succ depth =>
    rw [read, depthLimit]
    cases counts hd b with
    | opens hbyte hopenings hclosings =>
      rw [if_pos hbyte, if_neg (by omega), depthBehind, hopenings, hclosings]
      rfl
    | closes hbyte hopening hopenings hclosings =>
      rw [if_neg hopening, if_pos hbyte, if_neg (by omega), depthBehind, hopenings, hclosings]
      rfl
    | neither hopening hclosing hopenings hclosings =>
      rw [if_neg hopening, if_neg hclosing, depthBehind, hopenings, hclosings]
      rfl

theorem read_append_of_staysOpen (h : StaysOpen d depth front) (rest : List CodeByte) :
    read d depth (front ++ rest) = read d (depthBehind d depth front) rest := by
  induction front using List.reverseRecOn generalizing rest with
  | nil => rfl
  | append_singleton front b ih =>
    obtain ⟨hfront, hb⟩ := staysOpen_concat.mp h
    have hlt := hfront.closings_lt
    rw [List.append_assoc, ih hfront, List.singleton_append, read_cons_of_isOpen hd]
    · congr 1
      simp only [depthBehind, openings_append, closings_append]
      omega
    · rw [← hfront.isOpen_append, List.append_nil]
      exact hfront.isOpen
    · rw [← hfront.isOpen_append]
      exact hb

theorem read_of_staysOpen (h : StaysOpen d depth bytes) : read d depth bytes = .unclosed := by
  rw [← List.append_nil bytes, read_append_of_staysOpen hd h, read]

theorem LeavesAt.closes (h : LeavesAt d depth front b 0) :
    b.byte = d.closing.toUInt8 ∧ depthBehind d depth front = 1 := by
  obtain ⟨heq, hpos, -⟩ := h.depthBehind_eq
  cases counts hd b with
  | opens hbyte hopenings hclosings => omega
  | closes hbyte hopening hopenings hclosings => exact ⟨hbyte, by omega⟩
  | neither hopening hclosing hopenings hclosings => omega

theorem LeavesAt.opens (h : LeavesAt d depth front b (depthLimit + 1)) :
    b.byte = d.opening.toUInt8 ∧ depthBehind d depth front = depthLimit := by
  obtain ⟨heq, -, hlimit⟩ := h.depthBehind_eq
  cases counts hd b with
  | opens hbyte hopenings hclosings => exact ⟨hbyte, by omega⟩
  | closes hbyte hopening hopenings hclosings => omega
  | neither hopening hclosing hopenings hclosings => omega

theorem read_of_leavesAt_zero (h : LeavesAt d depth front b 0) (rest : List CodeByte) :
    read d depth (front ++ b :: rest) = .closed b.pos := by
  obtain ⟨hbyte, hone⟩ := h.closes hd
  rw [read_append_of_staysOpen hd h.staysOpen, hone, read, if_neg (hbyte ▸ hd.symm), if_pos hbyte,
    if_pos rfl]

theorem read_of_leavesAt_limit (h : LeavesAt d depth front b (depthLimit + 1))
    (rest : List CodeByte) : read d depth (front ++ b :: rest) = .tooDeep b.pos.line := by
  obtain ⟨hbyte, hlimit⟩ := h.opens hd
  rw [read_append_of_staysOpen hd h.staysOpen, hlimit, depthLimit, read, if_pos hbyte,
    if_pos (by decide)]

theorem staysOpen_or_leavesAt (h : IsOpen d depth []) (bytes : List CodeByte) :
    StaysOpen d depth bytes ∨ ∃ front b rest, bytes = front ++ b :: rest ∧
      (LeavesAt d depth front b 0 ∨ LeavesAt d depth front b (depthLimit + 1)) := by
  induction bytes using List.reverseRecOn with
  | nil =>
    refine .inl fun part hpart => ?_
    rw [List.prefix_nil.mp hpart]
    exact h
  | append_singleton bytes b ih =>
    rcases ih with hbytes | ⟨front, c, rest, rfl, hleaves⟩
    · by_cases hb : IsOpen d depth (bytes ++ [b])
      · exact .inl (staysOpen_concat.mpr ⟨hbytes, hb⟩)
      · refine .inr ⟨bytes, b, [], rfl, ?_⟩
        have hlt := hbytes.closings_lt
        have hlimit := hbytes.isOpen.2
        have hone : openings d [b] + closings d [b] ≤ 1 := by
          cases counts hd b <;> omega
        have hleft : depth + openings d (bytes ++ [b]) = closings d (bytes ++ [b]) ∨
            depth + openings d (bytes ++ [b]) = closings d (bytes ++ [b]) + (depthLimit + 1) := by
          simp only [IsOpen, openings_append, closings_append] at hb ⊢
          omega
        exact hleft.imp (⟨hbytes, ·⟩) (⟨hbytes, ·⟩)
    · exact .inr ⟨front, c, rest ++ [b], by simp, hleaves⟩

theorem Ends.exists_closing {p : Position} (h : Ends d depth bytes (.closed p)) :
    ∃ b ∈ bytes, b.pos = p ∧ b.byte = d.closing.toUInt8 := by
  cases h with
  | closed hzero => exact ⟨_, by simp, rfl, (hzero.closes hd).1⟩

theorem ends_read (h : IsOpen d depth []) (bytes : List CodeByte) :
    Ends d depth bytes (read d depth bytes) := by
  rcases staysOpen_or_leavesAt hd h bytes with hopen | ⟨front, b, rest, rfl, hzero | hlimit⟩
  · rw [read_of_staysOpen hd hopen]
    exact .unclosed hopen
  · rw [read_of_leavesAt_zero hd hzero]
    exact .closed hzero
  · rw [read_of_leavesAt_limit hd hlimit]
    exact .tooDeep hlimit

theorem read_eq_iff (h : IsOpen d depth []) {reading : Reading} :
    read d depth bytes = reading ↔ Ends d depth bytes reading := by
  constructor
  · rintro rfl
    exact ends_read hd h bytes
  · intro hends
    cases hends with
    | closed hzero => exact read_of_leavesAt_zero hd hzero _
    | tooDeep hlimit => exact read_of_leavesAt_limit hd hlimit _
    | unclosed hopen => exact read_of_staysOpen hd hopen

end

/-- One bracket more than there may be open groups. -/
example : read .parentheses 0
    (List.replicate 128 ⟨⟨0, 0⟩, '('.toUInt8⟩ ++ [⟨⟨7, 2⟩, '('.toUInt8⟩]) = .tooDeep 7 := by
  decide +kernel

/-! ## Before the first group -/

def Passed (d : Delimiters) (b : CodeByte) : Prop :=
  b.byte ≠ d.opening.toUInt8 ∧ (d.endsAtStatement = true → b.byte ≠ ';'.toUInt8)

theorem read_append_of_passed (h : ∀ b ∈ front, Passed d b) (rest : List CodeByte) :
    read d 0 (front ++ rest) = read d 0 rest := by
  induction front with
  | nil => rfl
  | cons b front ih =>
    rw [List.forall_mem_cons] at h
    rw [List.cons_append, read, if_neg h.1.1, if_neg fun hend => h.1.2 hend.1 hend.2, ih h.2]

theorem read_cons_opening (hb : b.byte = d.opening.toUInt8) (rest : List CodeByte) :
    read d 0 (b :: rest) = read d 1 rest := by
  rw [read, if_pos hb]

theorem read_cons_statement (hb : b.byte = ';'.toUInt8) (hne : ';'.toUInt8 ≠ d.opening.toUInt8)
    (hend : d.endsAtStatement = true) (rest : List CodeByte) :
    read d 0 (b :: rest) = .closed b.pos := by
  rw [read, if_neg (hb ▸ hne), if_pos ⟨hend, hb⟩]

end ScopeLint.Extent
