import ScopeLint.Proofs.MacroDefinition.Lines
import ScopeLint.Proofs.Pattern.MacroHead

/-!
# Names in macro definitions

The text of a definition is made of its lines, from their starts on. In front of the `#define` where
the definition starts it has what stands in front of it on its line, and a line that goes on settles
the name itself: its backslash is in no name.
-/

namespace ScopeLint

namespace Source

variable {s : Source} {first count : Nat} {line : Line}

/-- So many lines from number `first` on, one directly after the other. -/
def glued (s : Source) (first count : Nat) : Line := ((s.lines.drop first).take count).flatten

@[simp] theorem glued_zero : s.glued first 0 = [] := rfl

theorem glued_add_one (h : s.lines[first + count]? = some line) :
    s.glued first (count + 1) = s.glued first count ++ line := by
  rw [glued, List.take_add_one, List.getElem?_drop, h, List.flatten_append, glued]
  exact congrArg _ (List.append_nil line)

theorem glued_one (h : s.lines[first]? = some line) : s.glued first 1 = line := glued_add_one h

theorem glued_eq_line_append (h : first < s.lines.length) (count : Nat) :
    s.glued first (count + 1) = s.line first ++ s.glued (first + 1) count := by
  rw [glued, List.drop_eq_getElem_cons h, List.take_succ_cons, List.flatten_cons, glued,
    line_eq (List.getElem?_eq_getElem h)]

structure DefinesAt (s : Source) (p : Position) (front rest : Line) : Prop where
  line_eq : s.line p.line = front ++ "#define".toList ++ rest
  col_eq : p.col = Line.size front

end Source

namespace MacroDefinition

variable {s : Source} {inert : Inert} {begun : Option Begun} {index : Nat} {lines : List Line}
  {d : MacroDefinition}

theorem text_of_mem_readLines (hlines : s.lines.drop index = lines)
    (hbegun : ∀ b, begun = some b → ∃ count, b.start.line + count = index ∧
      b.text = s.glued b.start.line count)
    (hd : d ∈ readLines inert begun index lines) :
    ∃ count, d.span.start.line + count = d.span.stop.line ∧
      d.text = String.ofList (s.glued d.span.start.line (count + 1)) := by
  fun_induction readLines inert begun index lines with
  | case1 => cases hd
  | case2 b index line rest text hcontinued ih =>
    obtain ⟨hline, hrest⟩ := getElem?_of_drop_eq_cons hlines
    refine ih hrest ?_ hd
    rintro b' ⟨⟩
    obtain ⟨count, rfl, htext⟩ := hbegun b rfl
    exact ⟨count + 1, rfl, by rw [Source.glued_add_one hline, ← htext]⟩
  | case3 b index line rest text hended ih =>
    obtain ⟨hline, hrest⟩ := getElem?_of_drop_eq_cons hlines
    rcases List.mem_cons.mp hd with rfl | hd
    · obtain ⟨count, rfl, htext⟩ := hbegun b rfl
      exact ⟨count, rfl, by rw [Source.glued_add_one hline, ← htext]⟩
    · exact ih hrest (by simp) hd
  | case4 index line rest hnone ih =>
    exact ih (getElem?_of_drop_eq_cons hlines).2 (by simp) hd
  | case5 index line rest col hcol hcontinued ih =>
    obtain ⟨hline, hrest⟩ := getElem?_of_drop_eq_cons hlines
    refine ih hrest ?_ hd
    rintro b' ⟨⟩
    exact ⟨1, rfl, (Source.glued_one hline).symm⟩
  | case6 index line rest col hcol hended ih =>
    obtain ⟨hline, hrest⟩ := getElem?_of_drop_eq_cons hlines
    rcases List.mem_cons.mp hd with rfl | hd
    · exact ⟨0, rfl, congrArg String.ofList (Source.glued_one hline).symm⟩
    · exact ih hrest (by simp) hd

theorem exists_definesAt (hd : d ∈ ofSource s inert) :
    ∃ front rest, s.DefinesAt d.span.start front rest := by
  refine start_of_mem_readLines (P := fun p => ∃ front rest, s.DefinesAt p front rest) ?_ (by simp)
    hd
  intro i line col hline hcol
  rw [Nat.zero_add] at hcol ⊢
  obtain ⟨⟨f, found, hf, hpart, rfl⟩, -⟩ := exists_found_of_directive? hcol
  obtain ⟨front, rest, htext, hstart⟩ := Pattern.exists_define hf hpart
  exact ⟨front, rest, (Source.line_eq hline).trans htext, hstart⟩

theorem mem_of_getLast?_trimEnd {front rest : Line} {x last : Char} (hx : isBlank x = false)
    (hne : last ≠ x) (h : (trimEnd (front ++ x :: rest)).getLast? = some last) : last ∈ rest := by
  obtain ⟨blanks, hline, hblanks⟩ := exists_trimEnd_append (front ++ x :: rest)
  obtain ⟨kept, hkept⟩ := List.getLast?_eq_some_iff.mp h
  rw [hkept, List.append_assoc, List.singleton_append] at hline
  rcases List.append_eq_append_iff.mp hline with ⟨taken, -, htaken⟩ | ⟨taken, -, htaken⟩
  · cases taken with
    | nil => exact absurd (List.cons.inj htaken).1.symm hne
    | cons y taken =>
      rw [(List.cons.inj htaken).2]
      exact List.mem_append_right _ List.mem_cons_self
  · have hmem : x ∈ last :: blanks := htaken ▸ List.mem_append_right _ List.mem_cons_self
    rcases List.mem_cons.mp hmem with rfl | hmem
    · exact absurd rfl hne
    · rw [List.all_eq_true.mp hblanks x hmem] at hx
      cases hx

/-- A line that goes on settles the name that its `#define` defines: its backslash is in no name. -/
theorem macroBehind?_glued (hd : d ∈ ofSource s inert) {front rest : Line}
    (hdefine : s.DefinesAt d.span.start front rest) {count : Nat}
    (hcount : d.span.start.line + count = d.span.stop.line) :
    (rest ++ s.glued (d.span.start.line + 1) count).macroBehind? = rest.macroBehind? := by
  cases count with
  | zero => rw [Source.glued_zero, List.append_nil]
  | succ count =>
    obtain ⟨line, hline, hlast⟩ :=
      continues_of_mem_readLines rfl (by simp) hd _ (Nat.le_refl _) (by omega)
    have hfront : line = front ++ "#defin".toList ++ 'e' :: rest := by
      rw [← Source.line_eq hline, hdefine.line_eq, List.append_assoc, List.append_assoc]
      rfl
    rw [hfront] at hlast
    obtain ⟨back, more, rfl⟩ := List.append_of_mem (mem_of_getLast?_trimEnd rfl (by decide) hlast)
    rw [List.append_assoc, List.cons_append, Line.macroBehind?_append_cons (by decide),
      Line.macroBehind?_append_cons (by decide)]

/-- How a definition is written: behind the line with its `#define` the text has those it goes on
with, and what it defines stands on the line. -/
structure WrittenAs (s : Source) (d : MacroDefinition) (front rest more : Line) : Prop where
  define : s.DefinesAt d.span.start front rest
  more_eq : more = s.glued (d.span.start.line + 1) (d.span.stop.line - d.span.start.line)
  text_eq : d.text.toList = s.line d.span.start.line ++ more
  name_eq : (rest ++ more).macroBehind? = rest.macroBehind?

theorem exists_writtenAs (hd : d ∈ ofSource s inert) :
    ∃ front rest more, WrittenAs s d front rest more := by
  obtain ⟨front, rest, hdefine⟩ := exists_definesAt hd
  obtain ⟨count, hcount, htext⟩ := text_of_mem_readLines rfl (by simp) hd
  have hlt := stop_line_lt_of_mem_ofSource hd
  have hmore : d.span.stop.line - d.span.start.line = count := by omega
  refine ⟨front, rest, _, hdefine, rfl, ?_, ?_⟩
  · rw [htext, String.toList_ofList, Source.glued_eq_line_append (by omega), hmore]
  · rw [hmore, macroBehind?_glued hd hdefine hcount]

/-- The macros of a text that is cut at a `#define`: those in front of it, its own, which its line
settles, and those behind it. -/
def macrosAround (front rest more : Line) : List Macro :=
  front.macros ++ rest.macroBehind?.toList ++ (rest ++ more).macros

theorem WrittenAs.macros_text {front rest more : Line} (h : WrittenAs s d front rest more) :
    Line.macros d.text.toList = macrosAround front rest more := by
  rw [h.text_eq, h.define.line_eq, List.append_assoc _ rest, Line.macros_append_define, h.name_eq]
  rfl

end MacroDefinition

end ScopeLint
