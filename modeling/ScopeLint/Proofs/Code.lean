import ScopeLint.Code
import ScopeLint.Proofs.Inert.Blanking
import ScopeLint.Proofs.Sort

/-!
# What is left of a unit

The code of a unit has exactly the bytes outside comments and literals, in reading order.
-/

namespace ScopeLint

namespace Code

/-! ## Bytes in reading order -/

section

variable {bytes front back : List CodeByte} {x y : CodeByte}

theorem mem_front_iff (hsorted : (front ++ x :: back).Pairwise fun a b => a.pos < b.pos) :
    y ∈ front ↔ y ∈ front ++ x :: back ∧ y.pos < x.pos := by
  obtain ⟨-, hback, hfront⟩ := List.pairwise_append.mp hsorted
  refine ⟨fun hy => ⟨List.mem_append_left _ hy, hfront y hy x List.mem_cons_self⟩, ?_⟩
  rintro ⟨hy, hlt⟩
  rcases List.mem_append.mp hy with hy | hy
  · exact hy
  rcases List.mem_cons.mp hy with rfl | hy
  · exact absurd hlt (Position.lt_irrefl _)
  · have hgt := List.rel_of_pairwise_cons hback hy
    exact absurd (Position.lt_trans hlt hgt) (Position.lt_irrefl _)

theorem mem_cons_back_iff (hsorted : (front ++ x :: back).Pairwise fun a b => a.pos < b.pos) :
    y ∈ x :: back ↔ y ∈ front ++ x :: back ∧ x.pos ≤ y.pos := by
  obtain ⟨-, hback, hfront⟩ := List.pairwise_append.mp hsorted
  constructor
  · intro hy
    refine ⟨List.mem_append_right _ hy, ?_⟩
    rcases List.mem_cons.mp hy with rfl | hy
    · exact Position.le_refl _
    · exact Position.le_of_lt (List.rel_of_pairwise_cons hback hy)
  · rintro ⟨hy, hle⟩
    refine (List.mem_append.mp hy).resolve_left fun hy => ?_
    exact Position.not_le.mpr (hfront y hy x List.mem_cons_self) hle

theorem eq_of_pos_eq (hsorted : bytes.Pairwise fun a b => a.pos < b.pos) (hx : x ∈ bytes)
    (hy : y ∈ bytes) (hpos : x.pos = y.pos) : x = y := by
  have hdistinct : (bytes.map (·.pos)).Nodup := by
    refine List.pairwise_map.mpr (hsorted.imp fun hlt heq => ?_)
    rw [heq] at hlt
    exact Position.lt_irrefl _ hlt
  exact List.inj_on_of_nodup_map hdistinct hx hy hpos

end

/-! ## Bytes of a line -/

theorem getElem?_cons_sub {α : Type} (x : α) (rest : List α) {i n : Nat} (h : i < n) :
    (x :: rest)[n - i]? = rest[n - (i + 1)]? := by
  have hn : n - i = n - (i + 1) + 1 := by omega
  rw [hn, List.getElem?_cons_succ]

theorem mem_lineBytes {inert : Inert} {line col : Nat} {bytes : List UInt8} {x : CodeByte} :
    x ∈ lineBytes inert line col bytes ↔
      inert.covers x.pos = false ∧ x.pos.line = line ∧ col ≤ x.pos.col ∧
        bytes[x.pos.col - col]? = some x.byte := by
  induction bytes generalizing col with
  | nil => simp [lineBytes]
  | cons b rest ih =>
    obtain ⟨⟨row, c⟩, byte⟩ := x
    rcases Nat.lt_trichotomy c col with hc | rfl | hc
    · rw [lineBytes]
      split
      · rw [ih]
        simp only
        omega
      · rw [List.mem_cons, ih]
        simp only [CodeByte.mk.injEq, Position.mk.injEq]
        omega
    · have hself : (b :: rest)[c - c]? = some b := by rw [Nat.sub_self]; rfl
      rw [lineBytes]
      split
      · rename_i hcovered
        rw [ih]
        simp only
        constructor
        · rintro ⟨-, -, hlt, -⟩
          omega
        · rintro ⟨hfree, rfl, -, -⟩
          rw [hcovered] at hfree
          cases hfree
      · rename_i hfree
        rw [List.mem_cons, ih]
        simp only [CodeByte.mk.injEq, Position.mk.injEq, and_true, hself, Option.some.injEq]
        constructor
        · rintro (⟨rfl, rfl⟩ | ⟨-, -, hlt, -⟩)
          · exact ⟨by simpa using hfree, rfl, Nat.le_refl _, rfl⟩
          · omega
        · rintro ⟨-, rfl, -, rfl⟩
          exact .inl ⟨rfl, rfl⟩
    · have hmem : ⟨⟨row, c⟩, byte⟩ ∈ lineBytes inert line (col + 1) rest ↔
          inert.covers ⟨row, c⟩ = false ∧ row = line ∧ col ≤ c ∧
            (b :: rest)[c - col]? = some byte := by
        rw [ih, getElem?_cons_sub b rest hc]
        simp only [Nat.succ_le_of_lt hc, Nat.le_of_lt hc]
      rw [lineBytes]
      split
      · exact hmem
      · rw [List.mem_cons, hmem]
        simp only [CodeByte.mk.injEq, Position.mk.injEq]
        constructor
        · rintro (⟨⟨-, rfl⟩, -⟩ | h)
          · omega
          · exact h
        · exact .inr

theorem pairwise_lineBytes (inert : Inert) (line col : Nat) (bytes : List UInt8) :
    (lineBytes inert line col bytes).Pairwise fun a b => a.pos < b.pos := by
  induction bytes generalizing col with
  | nil => exact .nil
  | cons b rest ih =>
    rw [lineBytes]
    split
    · exact ih (col + 1)
    · refine .cons ?_ (ih (col + 1))
      intro x hx
      obtain ⟨-, hline, hcol, -⟩ := mem_lineBytes.mp hx
      rw [Position.lt_def]
      exact .inr ⟨hline.symm, hcol⟩

/-! ## Bytes of a unit -/

theorem mem_bytesFrom {inert : Inert} {index : Nat} {lines : List Line} {x : CodeByte} :
    x ∈ bytesFrom inert index lines ↔
      inert.covers x.pos = false ∧ index ≤ x.pos.line ∧
        (lines[x.pos.line - index]?).bind (·.byteAt? x.pos.col) = some x.byte := by
  induction lines generalizing index with
  | nil => simp [bytesFrom]
  | cons line rest ih =>
    rw [bytesFrom, List.mem_append, mem_lineBytes, ih, Nat.sub_zero]
    rcases Nat.lt_trichotomy x.pos.line index with hlt | heq | hgt
    · omega
    · have hself : (line :: rest)[x.pos.line - index]? = some line := by
        rw [heq, Nat.sub_self]; rfl
      rw [hself, Option.bind_some, Line.byteAt?]
      constructor
      · rintro (⟨hfree, -, -, hbyte⟩ | ⟨-, hle, -⟩)
        · exact ⟨hfree, by omega, hbyte⟩
        · omega
      · rintro ⟨hfree, -, hbyte⟩
        exact .inl ⟨hfree, heq, Nat.zero_le _, hbyte⟩
    · rw [getElem?_cons_sub line rest hgt]
      constructor
      · rintro (⟨-, heq, -⟩ | ⟨hfree, -, hbyte⟩)
        · omega
        · exact ⟨hfree, by omega, hbyte⟩
      · rintro ⟨hfree, -, hbyte⟩
        exact .inr ⟨hfree, hgt, hbyte⟩

theorem pairwise_bytesFrom (inert : Inert) (index : Nat) (lines : List Line) :
    (bytesFrom inert index lines).Pairwise fun a b => a.pos < b.pos := by
  induction lines generalizing index with
  | nil => exact .nil
  | cons line rest ih =>
    rw [bytesFrom, List.pairwise_append]
    refine ⟨pairwise_lineBytes inert index 0 _, ih (index + 1), ?_⟩
    intro x hx y hy
    obtain ⟨-, hline, -⟩ := mem_lineBytes.mp hx
    obtain ⟨-, hle, -⟩ := mem_bytesFrom.mp hy
    rw [Position.lt_def]
    omega

theorem mem_bytes {s : Source} {x : CodeByte} :
    x ∈ (ofSource s).bytes ↔
      (Inert.ofSource s).covers x.pos = false ∧ s.byteAt? x.pos = some x.byte := by
  unfold ofSource
  rw [mem_bytesFrom, Nat.sub_zero, ← Source.byteAt?]
  simp

theorem pairwise_bytes (s : Source) :
    (ofSource s).bytes.Pairwise fun a b => a.pos < b.pos :=
  pairwise_bytesFrom _ 0 s.lines

theorem bytes_congr {a b : Source} (hcovers : (Inert.ofSource a).covers = (Inert.ofSource b).covers)
    (hbytes : ∀ p, (Inert.ofSource a).covers p = false → a.byteAt? p = b.byteAt? p) :
    (ofSource a).bytes = (ofSource b).bytes := by
  refine eq_of_pairwise_of_mem_iff ?_ ?_ (pairwise_bytes a) (pairwise_bytes b) ?_
  · exact fun x => Position.lt_irrefl x.pos
  · exact fun _ _ _ => Position.lt_trans
  · intro x
    rw [mem_bytes, mem_bytes, ← hcovers]
    refine and_congr_right fun hfree => ?_
    rw [hbytes x.pos hfree]

/-! ## Lines of a unit -/

theorem length_lines (s : Source) : (ofSource s).lines.length = s.lines.length :=
  Inert.length_blankLines _ 0 s.lines

end Code

/-- The byte stands at the position, in no comment and no literal. -/
def Source.HasCode (s : Source) (p : Position) (b : UInt8) : Prop :=
  (Inert.ofSource s).covers p = false ∧ s.byteAt? p = some b

theorem Source.hasCode_of_mem_bytes {s : Source} {x : CodeByte} (h : x ∈ (Code.ofSource s).bytes) :
    s.HasCode x.pos x.byte :=
  Code.mem_bytes.mp h

end ScopeLint
