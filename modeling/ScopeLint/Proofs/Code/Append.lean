import ScopeLint.Proofs.Extent
import ScopeLint.Proofs.MacroDefinition.Append
import ScopeLint.Proofs.Sort

/-!
# The code of appended lines

What a search looks at in front of the seam is what the lines there have on their own; and so behind
it, further down.
-/

namespace ScopeLint

/-- The code `whole` is `front` with `back` put below it, `n` lines further down. -/
structure Code.Seam (front back whole : Code) (n : Nat) : Prop where
  lines : whole.lines = front.lines ++ back.lines
  length : front.lines.length = n
  bytes : whole.bytes = front.bytes ++ back.bytes.map (·.down n)
  line_lt : ∀ x ∈ front.bytes, x.pos.line < n
  covers_front : ∀ p : Position, p.line < n → whole.inert.covers p = front.inert.covers p
  covers_back : ∀ p : Position, whole.inert.covers (p.down n) = back.inert.covers p
  inMacro_front : ∀ line < n, whole.inMacro line = front.inMacro line
  inMacro_back : ∀ line, whole.inMacro (line + n) = back.inMacro line

/-! ## Appended lines have a seam -/

namespace Inert

theorem blankBytes_congr {i j : Inert} {m n : Nat}
    (h : ∀ col, i.inComment ⟨m, col⟩ = j.inComment ⟨n, col⟩) (col : Nat) (bytes : List UInt8) :
    i.blankBytes m col bytes = j.blankBytes n col bytes := by
  induction bytes generalizing col with
  | nil => rfl
  | cons x rest ih => rw [blankBytes, blankBytes, h, ih]

variable {name : String} {a b : List Line}

theorem blankLines_append (h : Closed a) :
    (ofSource ⟨name, a ++ b⟩).blankLines 0 (a ++ b) =
      (ofSource ⟨name, a⟩).blankLines 0 a ++ (ofSource ⟨name, b⟩).blankLines 0 b := by
  apply List.ext_getElem?
  intro index
  rw [getElem?_blankLines, Nat.zero_add]
  by_cases hindex : index < a.length
  · have hblank := blankBytes_congr fun col =>
      @inComment_append_front name a b h ⟨index, col⟩ hindex
    rw [List.getElem?_append_left hindex, List.getElem?_append_left (by rwa [length_blankLines]),
      getElem?_blankLines, Nat.zero_add]
    simp only [hblank]
  · have hle := Nat.le_of_not_lt hindex
    obtain ⟨i, rfl⟩ := Nat.exists_eq_add_of_le' hle
    have hblank := blankBytes_congr (m := i + a.length) (n := i) fun col =>
      @inComment_append_back name a b h ⟨i, col⟩
    rw [List.getElem?_append_right hle,
      List.getElem?_append_right (by rw [length_blankLines]; exact hle), length_blankLines,
      Nat.add_sub_cancel, getElem?_blankLines, Nat.zero_add]
    simp only [hblank]

end Inert

theorem Source.byteAt?_append_front {name : String} {a b : List Line} {p : Position}
    (hp : p.line < a.length) :
    Source.byteAt? ⟨name, a ++ b⟩ p = Source.byteAt? ⟨name, a⟩ p := by
  unfold byteAt?
  rw [List.getElem?_append_left hp]

theorem Source.byteAt?_append_back {name : String} {a b : List Line} (p : Position) :
    Source.byteAt? ⟨name, a ++ b⟩ (p.down a.length) = Source.byteAt? ⟨name, b⟩ p := by
  unfold byteAt?
  simp only [Position.down_line, Position.down_col]
  rw [List.getElem?_append_right (Nat.le_add_left _ _), Nat.add_sub_cancel]

namespace Code

variable {name : String} {a b : List Line}

theorem line_lt_of_mem_bytes {s : Source} {x : CodeByte} (hx : x ∈ (ofSource s).bytes) :
    x.pos.line < s.lines.length :=
  Source.line_lt_of_byteAt? (mem_bytes.mp hx).2

theorem bytes_append (h : Inert.Closed a) :
    (ofSource ⟨name, a ++ b⟩).bytes =
      (ofSource ⟨name, a⟩).bytes ++ (ofSource ⟨name, b⟩).bytes.map (·.down a.length) := by
  have hsorted : ((ofSource ⟨name, a⟩).bytes ++
      (ofSource ⟨name, b⟩).bytes.map (·.down a.length)).Pairwise fun x y => x.pos < y.pos := by
    refine List.pairwise_append.mpr ⟨pairwise_bytes _, ?_, ?_⟩
    · exact List.pairwise_map.mpr ((pairwise_bytes _).imp Position.down_lt_down.mpr)
    · intro x hx y hy
      obtain ⟨y, -, rfl⟩ := List.mem_map.mp hy
      exact .inl (Nat.lt_of_lt_of_le (line_lt_of_mem_bytes hx) (Nat.le_add_left _ _))
  refine eq_of_pairwise_of_mem_iff ?_ ?_ (pairwise_bytes _) hsorted ?_
  · exact fun x => Position.lt_irrefl x.pos
  · exact fun _ _ _ => Position.lt_trans
  · intro x
    rw [mem_bytes, List.mem_append]
    by_cases hline : x.pos.line < a.length
    · rw [Inert.covers_append_front h hline, Source.byteAt?_append_front hline, ← mem_bytes]
      refine (or_iff_left fun hx => ?_).symm
      obtain ⟨y, -, rfl⟩ := List.mem_map.mp hx
      exact absurd hline (Nat.not_lt.mpr (Nat.le_add_left _ _))
    · obtain ⟨y, rfl⟩ := CodeByte.exists_down_eq (Nat.le_of_not_lt hline)
      have hback : y.down a.length ∈ (ofSource ⟨name, b⟩).bytes.map (·.down a.length) ↔
          y ∈ (ofSource ⟨name, b⟩).bytes :=
        List.mem_map_of_injective (CodeByte.down_injective _)
      rw [CodeByte.down_pos, Inert.covers_append_back h, Source.byteAt?_append_back,
        CodeByte.down_byte, ← mem_bytes, hback]
      exact (or_iff_right fun hy => absurd (line_lt_of_mem_bytes hy) hline).symm

/-- Where neither a comment nor a definition goes on, appended lines have a seam. -/
theorem seam_append (h : Inert.Closed a)
    (hlast : ∀ line ∈ a.getLast?, MacroDefinition.isContinued line = false) :
    Seam (ofSource ⟨name, a⟩) (ofSource ⟨name, b⟩) (ofSource ⟨name, a ++ b⟩) a.length where
  lines := Inert.blankLines_append h
  length := length_lines ⟨name, a⟩
  bytes := bytes_append h
  line_lt _ hx := line_lt_of_mem_bytes hx
  covers_front _ := Inert.covers_append_front h
  covers_back := Inert.covers_append_back h
  inMacro_front _ := inMacro_append_front h hlast
  inMacro_back := inMacro_append_back h hlast

end Code

end ScopeLint
