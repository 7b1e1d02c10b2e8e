import ScopeLint.MacroDefinition
import ScopeLint.Proofs.Pattern.Heads
import ScopeLint.Proofs.Source

/-!
# Macro definitions end in their unit
-/

namespace ScopeLint

theorem getElem?_of_drop_eq_cons {α : Type} {items rest : List α} {n : Nat} {x : α}
    (h : items.drop n = x :: rest) : items[n]? = some x ∧ items.drop (n + 1) = rest := by
  constructor
  · rw [← List.head?_drop, h, List.head?_cons]
  · rw [← List.tail_drop, h, List.tail_cons]

namespace MacroDefinition

theorem exists_found_of_directive? {inert : Inert} {index col : Nat} {line : Line}
    (h : directive? inert index line = some col) :
    (∃ f found, Pattern.directiveHead.matchLine line = some f ∧ f.part? .keyword = some found ∧
      found.start = col) ∧ inert.covers ⟨index, col⟩ = false := by
  unfold directive? at h
  rw [Option.bind_eq_some_iff] at h
  obtain ⟨found, hfound, h⟩ := h
  obtain ⟨f, hf, hpart⟩ := Option.bind_eq_some_iff.mp hfound
  split at h
  · simp at h
  · rename_i hfree
    obtain rfl := Option.some.inj h
    exact ⟨⟨f, found, hf, hpart, rfl⟩, Bool.eq_false_iff.mpr hfree⟩

theorem hasCodeAt_of_directive? {inert : Inert} {index col : Nat} {line : Line}
    (h : directive? inert index line = some col) : line.HasCodeAt col := by
  obtain ⟨⟨f, found, hf, hpart, rfl⟩, -⟩ := exists_found_of_directive? h
  exact Pattern.hasCodeAt_directive hf hpart

theorem code_of_directive? {s : Source} {inert : Inert} {index col : Nat} {line : Line}
    (hline : s.lines[index]? = some line) (h : directive? inert index line = some col) :
    inert.covers ⟨index, col⟩ = false ∧ s.byteAt? ⟨index, col⟩ = some '#'.toUInt8 := by
  obtain ⟨⟨f, found, hf, hpart, rfl⟩, hfree⟩ := exists_found_of_directive? h
  obtain ⟨front, rest, rfl, hstart⟩ := Pattern.exists_directive hf hpart
  refine ⟨hfree, ?_⟩
  rw [Source.byteAt?_eq hline, hstart, Line.encode_append, ← Line.length_encode,
    List.getElem?_append_right (Nat.le_refl _), Nat.sub_self]
  rfl

theorem lastColOn_le (inert : Inert) (index start : Nat) (line : Line) :
    lastColOn inert index start line ≤ line.lastCol := by
  unfold lastColOn
  split
  · exact Nat.le_refl _
  · rename_i c _
    split
    · have hcut := Line.lastCol_trimEnd_le (line.slice 0 c.span.start.col)
      have hslice := Line.size_sliceFrom_le 0 c.span.start.col 0 line
      rw [Line.lastCol, Line.slice] at *
      rw [Line.lastCol] at *
      omega
    · exact Nat.le_refl _

theorem fitsIn_of_begun {s : Source} {start : Position} {index : Nat} {line : Line}
    (hline : s.lines[index]? = some line) (hstart : start.line < index) :
    Span.FitsIn ⟨start, ⟨index, line.lastCol⟩⟩ s := by
  refine Span.fitsIn_of_lt (.inl hstart) (List.getElem?_eq_some_iff.mp hline).1 ?_
  exact Nat.le_of_eq (congrArg Line.lastCol (Source.line_eq hline).symm)

theorem fitsIn_of_mem_readLines {s : Source} {inert : Inert} {begun : Option Begun} {index : Nat}
    {lines : List Line} (hlines : s.lines.drop index = lines)
    (hbegun : ∀ b, begun = some b → b.start.line < index) {d : MacroDefinition}
    (hd : d ∈ readLines inert begun index lines) : d.span.FitsIn s := by
  fun_induction readLines inert begun index lines with
  | case1 => cases hd
  | case2 b index line rest text hcontinued ih =>
    obtain ⟨-, hrest⟩ := getElem?_of_drop_eq_cons hlines
    refine ih hrest ?_ hd
    rintro b' ⟨⟩
    exact Nat.lt_succ_of_lt (hbegun b rfl)
  | case3 b index line rest text hended ih =>
    obtain ⟨hline, hrest⟩ := getElem?_of_drop_eq_cons hlines
    rcases List.mem_cons.mp hd with rfl | hd
    · exact fitsIn_of_begun hline (hbegun b rfl)
    · exact ih hrest (by simp) hd
  | case4 index line rest hnone ih =>
    obtain ⟨-, hrest⟩ := getElem?_of_drop_eq_cons hlines
    exact ih hrest (by simp) hd
  | case5 index line rest col hcol hcontinued ih =>
    obtain ⟨-, hrest⟩ := getElem?_of_drop_eq_cons hlines
    refine ih hrest ?_ hd
    rintro b' ⟨⟩
    exact Nat.lt_succ_self index
  | case6 index line rest col hcol hended ih =>
    obtain ⟨hline, hrest⟩ := getElem?_of_drop_eq_cons hlines
    rcases List.mem_cons.mp hd with rfl | hd
    · have hcode := (hasCodeAt_of_directive? hcol).lt_size
      have hlast := lastColOn_le inert index col line
      refine Span.fitsIn_of_lt (.inr ⟨rfl, Nat.le_max_right _ _⟩)
        (List.getElem?_eq_some_iff.mp hline).1 ?_
      simp only
      rw [Source.line_eq hline]
      rw [Line.lastCol] at *
      omega
    · exact ih hrest (by simp) hd

theorem fitsIn_of_mem_ofSource {s : Source} {inert : Inert} {d : MacroDefinition}
    (hd : d ∈ ofSource s inert) : d.span.FitsIn s :=
  fitsIn_of_mem_readLines rfl (by simp) hd

end MacroDefinition

end ScopeLint
