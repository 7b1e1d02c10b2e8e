import Mathlib.Data.Option.Basic
import ScopeLint.Proofs.Extent

/-!
# The bytes that extents are made of

Only brackets and semicolons open, close or end an extent: bytes that are none of them can be left
out. The byte that comes next is known by the blanks in front of it.
-/

namespace ScopeLint

namespace Extent

variable {d : Delimiters}

theorem read_cons_of_not_marks {b : CodeByte} (h : ¬d.Marks b.byte) (depth : Nat)
    (rest : List CodeByte) : read d depth (b :: rest) = read d depth rest := by
  obtain ⟨hopening, h⟩ := not_or.mp h
  obtain ⟨hclosing, hstatement⟩ := not_or.mp h
  cases depth with
  | zero => rw [read, if_neg hopening, if_neg fun hend => hstatement hend.2]
  | succ depth => rw [read, if_neg hopening, if_neg hclosing]

theorem read_filter {kept : CodeByte → Bool} {bytes : List CodeByte}
    (h : ∀ b ∈ bytes, kept b = false → ¬d.Marks b.byte) (depth : Nat) :
    read d depth (bytes.filter kept) = read d depth bytes := by
  induction bytes generalizing depth with
  | nil => rfl
  | cons b rest ih =>
    have hrest := ih fun b' hb' => h b' (List.mem_cons_of_mem _ hb')
    cases hkept : kept b with
    | false =>
      rw [List.filter_cons_of_neg (by simp [hkept]), hrest,
        read_cons_of_not_marks (h b List.mem_cons_self hkept)]
    | true =>
      rw [List.filter_cons_of_pos hkept]
      cases depth with
      | zero => rw [read, read, hrest, hrest]
      | succ depth => rw [read, read, hrest, hrest, hrest]

variable {s : Source}

theorem of_nextCode? {start : Position} {x : CodeByte}
    (h : nextCode? (Code.ofSource s) start = some x) :
    x ∈ (Code.ofSource s).bytes ∧ start ≤ x.pos ∧ isBlankByte x.byte = false ∧
      ∀ y ∈ (Code.ofSource s).bytes, start ≤ y.pos → y.pos < x.pos → isBlankByte y.byte = true := by
  obtain ⟨hx, front, back, hbytes, hfront⟩ := List.find?_eq_some_iff_append.mp h
  have hmem : x ∈ (Code.ofSource s).bytesAt start := List.mem_of_find?_eq_some h
  have hsorted := Code.pairwise_bytesAt s start
  rw [hbytes] at hsorted
  obtain ⟨hx', hle⟩ := Code.mem_bytesAt.mp hmem
  refine ⟨hx', hle, by simpa using hx, ?_⟩
  intro y hy hstart hlt
  have hy' := Code.mem_bytesAt.mpr ⟨hy, hstart⟩
  rw [hbytes] at hy'
  simpa using hfront y ((Code.mem_front_iff hsorted).mpr ⟨hy', hlt⟩)

theorem nextCode?_eq_some_iff {start : Position} {x : CodeByte} :
    nextCode? (Code.ofSource s) start = some x ↔
      x ∈ (Code.ofSource s).bytes ∧ start ≤ x.pos ∧ isBlankByte x.byte = false ∧
        ∀ y ∈ (Code.ofSource s).bytes,
          start ≤ y.pos → y.pos < x.pos → isBlankByte y.byte = true := by
  refine ⟨of_nextCode?, ?_⟩
  rintro ⟨hx, hstart, hcode, hblank⟩
  cases hnext : nextCode? (Code.ofSource s) start with
  | none =>
    have hnone := List.find?_eq_none.mp hnext x (Code.mem_bytesAt.mpr ⟨hx, hstart⟩)
    simp [hcode] at hnone
  | some z =>
    obtain ⟨hz, hstart', hcode', hblank'⟩ := of_nextCode? hnext
    -- Neither comes before the other, since neither is blank.
    have hxz : ¬x.pos < z.pos := fun hlt => by
      rw [hblank' x hx hstart hlt] at hcode
      cases hcode
    have hzx : ¬z.pos < x.pos := fun hlt => by
      rw [hblank z hz hstart' hlt] at hcode'
      cases hcode'
    have hpos := Position.le_antisymm (Position.not_lt.mp hxz) (Position.not_lt.mp hzx)
    rw [Code.eq_of_pos_eq (Code.pairwise_bytes s) hz hx hpos]

theorem loopStatement?_eq_some_iff {code : Code} {p q : Position} :
    loopStatement? code p = some q ↔
      ∃ opening closing statement, nextCode? code p = some opening ∧
        opening.byte = '('.toUInt8 ∧ resolve code opening.pos .parentheses = .ok closing ∧
        nextCode? code (behind closing) = some statement ∧ statement.byte = ';'.toUInt8 ∧
        statement.pos = q := by
  constructor
  · intro h
    unfold loopStatement? at h
    obtain ⟨opening, hopening, h⟩ := Option.bind_eq_some_iff.mp h
    obtain ⟨_, hbracket, h⟩ := Option.bind_eq_some_iff.mp h
    split at h
    · cases h
    · rename_i closing hclosing
      obtain ⟨statement, hstatement, h⟩ := Option.bind_eq_some_iff.mp h
      obtain ⟨_, hend, h⟩ := Option.bind_eq_some_iff.mp h
      exact ⟨opening, closing, statement, hopening, (Option.guard_eq_some' _).mp hbracket, hclosing,
        hstatement, (Option.guard_eq_some' _).mp hend, Option.some.inj h⟩
  · rintro ⟨opening, closing, statement, hopening, hbracket, hclosing, hstatement, hend, rfl⟩
    have hguard {c : Prop} [Decidable c] (hc : c) : (guard c : Option Unit) = some () :=
      (Option.guard_eq_some' ()).mpr hc
    unfold loopStatement?
    simp only [hopening, hguard hbracket, hclosing, hstatement, hguard hend, Option.bind_eq_bind,
      Option.bind_some, Option.pure_def]

end Extent

end ScopeLint
