import ScopeLint.Code
import ScopeLint.Proofs.MacroDefinition

/-!
# Macro definitions in order

Each definition ends on a line in front of the next one. So the search by halving finds whether a
line belongs to one.
-/

namespace ScopeLint

namespace MacroDefinition

variable {inert : Inert}

/-! ## Lines of definitions -/

theorem start_of_mem_readLines {P : Position → Prop} {begun : Option Begun} {index : Nat}
    {lines : List Line}
    (hdirective : ∀ i line col, lines[i]? = some line →
      directive? inert (index + i) line = some col → P ⟨index + i, col⟩)
    (hbegun : ∀ b, begun = some b → P b.start) {d : MacroDefinition}
    (hd : d ∈ readLines inert begun index lines) : P d.span.start := by
  have htail : ∀ {index line rest}, (∀ i line' col, (line :: rest)[i]? = some line' →
      directive? inert (index + i) line' = some col → P ⟨index + i, col⟩) →
      ∀ i line' col, rest[i]? = some line' →
        directive? inert (index + 1 + i) line' = some col → P ⟨index + 1 + i, col⟩ := by
    intro index line rest h i line' col hline hcol
    rw [Nat.add_right_comm] at hcol ⊢
    exact h (i + 1) line' col hline hcol
  fun_induction readLines inert begun index lines with
  | case1 => cases hd
  | case2 b index line rest text hcontinued ih =>
    refine ih (htail hdirective) ?_ hd
    rintro b' ⟨⟩
    exact hbegun b rfl
  | case3 b index line rest text hended ih =>
    rcases List.mem_cons.mp hd with rfl | hd
    · exact hbegun b rfl
    · exact ih (htail hdirective) (by simp) hd
  | case4 index line rest hnone ih => exact ih (htail hdirective) (by simp) hd
  | case5 index line rest col hcol hcontinued ih =>
    refine ih (htail hdirective) ?_ hd
    rintro b' ⟨⟩
    exact hdirective 0 line col rfl hcol
  | case6 index line rest col hcol hended ih =>
    rcases List.mem_cons.mp hd with rfl | hd
    · exact hdirective 0 line col rfl hcol
    · exact ih (htail hdirective) (by simp) hd

theorem le_start_of_mem_readLines {index : Nat} {lines : List Line} {d : MacroDefinition}
    (hd : d ∈ readLines inert none index lines) : index ≤ d.span.start.line :=
  start_of_mem_readLines (P := fun p => index ≤ p.line) (fun i _ _ _ _ => Nat.le_add_right index i)
    (by simp) hd

theorem code_start_of_mem_ofSource {s : Source} {d : MacroDefinition} (hd : d ∈ ofSource s inert) :
    inert.covers d.span.start = false ∧ s.byteAt? d.span.start = some '#'.toUInt8 := by
  refine start_of_mem_readLines
    (P := fun p => inert.covers p = false ∧ s.byteAt? p = some '#'.toUInt8) ?_ (by simp) hd
  intro i line col hline hcol
  rw [Nat.zero_add] at hcol ⊢
  exact code_of_directive? hline hcol

/-! ## Texts of definitions -/

theorem mem_of_directive? {index col : Nat} {line : Line}
    (h : directive? inert index line = some col) : '#' ∈ line := by
  obtain ⟨⟨f, found, hf, hpart, -⟩, -⟩ := exists_found_of_directive? h
  obtain ⟨front, rest, rfl, -⟩ := Pattern.exists_directive hf hpart
  simp

theorem mem_text_of_mem_readLines {begun : Option Begun} {index : Nat}
    {lines : List Line} (hbegun : ∀ b, begun = some b → '#' ∈ b.text) {d : MacroDefinition}
    (hd : d ∈ readLines inert begun index lines) : '#' ∈ d.text.toList := by
  fun_induction readLines inert begun index lines with
  | case1 => cases hd
  | case2 b index line rest text hcontinued ih =>
    refine ih ?_ hd
    rintro b' ⟨⟩
    simp [text, hbegun b rfl]
  | case3 b index line rest text hended ih =>
    rcases List.mem_cons.mp hd with rfl | hd
    · simp [text, hbegun b rfl]
    · exact ih (by simp) hd
  | case4 index line rest hnone ih => exact ih (by simp) hd
  | case5 index line rest col hcol hcontinued ih =>
    refine ih ?_ hd
    rintro b' ⟨⟩
    exact mem_of_directive? hcol
  | case6 index line rest col hcol hended ih =>
    rcases List.mem_cons.mp hd with rfl | hd
    · simp [mem_of_directive? hcol]
    · exact ih (by simp) hd

/-! ## Order -/

theorem pairwise_readLines (begun : Option Begun) (index : Nat) (lines : List Line) :
    (readLines inert begun index lines).Pairwise
      fun a b => a.span.stop.line < b.span.start.line := by
  fun_induction readLines inert begun index lines with
  | case1 => exact .nil
  | case2 _ _ _ _ _ _ ih | case4 _ _ _ _ ih | case5 _ _ _ _ _ _ ih => exact ih
  | case3 b index line rest text hended ih => exact .cons (fun _ => le_start_of_mem_readLines) ih
  | case6 index line rest col hcol hended ih =>
    exact .cons (fun _ => le_start_of_mem_readLines) ih

theorem pairwise_ofSource (s : Source) :
    (ofSource s inert).Pairwise fun a b => a.span.stop.line < b.span.start.line :=
  pairwise_readLines none 0 s.lines

theorem stop_line_lt_of_mem_ofSource {s : Source} {d : MacroDefinition}
    (hd : d ∈ ofSource s inert) : d.span.stop.line < s.lines.length := by
  have hpos : 0 < s.lines.length := by
    refine List.length_pos_iff.mpr fun hempty => ?_
    rw [ofSource, hempty] at hd
    cases hd
  have hstop := (fitsIn_of_mem_ofSource hd).2
  simp only [Position.le_def, Source.lastPosition] at hstop
  omega

/-! ## Runs of lines -/

namespace LineRun

/-- From the first column of the run's first line to the first column of its last. -/
def span (run : LineRun) : Span := ⟨⟨run.first, 0⟩, ⟨run.last, 0⟩⟩

theorem start_span_le_iff {run : LineRun} {line : Nat} :
    run.span.start ≤ ⟨line, 0⟩ ↔ run.first ≤ line := by
  simp only [Position.le_def, span]
  omega

theorem le_stop_span_iff {run : LineRun} {line : Nat} :
    ⟨line, 0⟩ ≤ run.span.stop ↔ line ≤ run.last := by
  simp only [Position.le_def, span]
  omega

end LineRun

theorem runAt?_eq_findContaining {runs : Array LineRun}
    (h : Span.InOrder (runs.toList.map LineRun.span)) (line : Nat) :
    runAt? runs line = findContaining LineRun.span runs ⟨line, 0⟩ := by
  have hfront := isFront_start_le h ⟨line, 0⟩
  unfold runAt? findContaining
  simp only [LineRun.start_span_le_iff] at hfront ⊢
  cases hrun : lastInFront? (fun run : LineRun => decide (run.first ≤ line)) runs with
  | none => rfl
  | some run =>
    rw [lastInFront?_eq hfront] at hrun
    have hfirst := List.all_eq_true.mp List.all_takeWhile run (List.mem_of_getLast? hrun)
    have hmem : (⟨line, 0⟩ : Position) ∈ run.span ↔ line ≤ run.last :=
      (and_iff_right (LineRun.start_span_le_iff.mpr (of_decide_eq_true hfirst))).trans
        LineRun.le_stop_span_iff
    simp only [Option.filter_some, hmem]

theorem inOrder_runs (s : Source) :
    Span.InOrder ((Code.ofSource s).macroRuns.toList.map LineRun.span) := by
  have hruns : (Code.ofSource s).macroRuns.toList =
      (ofSource s (Inert.ofSource s)).map (·.lineRun) := rfl
  rw [hruns, List.map_map]
  constructor
  · intro span hspan
    obtain ⟨d, hd, rfl⟩ := List.mem_map.mp hspan
    have hfits := (fitsIn_of_mem_ofSource hd).1
    simp only [Position.le_def] at hfits
    exact LineRun.start_span_le_iff.mpr (by simp only [lineRun]; omega)
  · refine List.pairwise_map.mpr ((pairwise_ofSource s).imp fun hab => ?_)
    exact .inl hab

end MacroDefinition

/-- A line belongs to a macro definition when the first column of its run of lines is reached. -/
theorem Code.inMacro_iff_span {s : Source} {line : Nat} :
    (Code.ofSource s).inMacro line = true ↔
      ∃ span ∈ (Code.ofSource s).macroRuns.toList.map MacroDefinition.LineRun.span,
        (⟨line, 0⟩ : Position) ∈ span := by
  unfold Code.inMacro
  rw [MacroDefinition.runAt?_eq_findContaining (MacroDefinition.inOrder_runs s),
    isSome_findContaining_iff (MacroDefinition.inOrder_runs s)]
  constructor
  · rintro ⟨run, hrun, hin⟩
    exact ⟨run.span, List.mem_map_of_mem hrun, hin⟩
  · rintro ⟨span, hspan, hin⟩
    obtain ⟨run, hrun, rfl⟩ := List.mem_map.mp hspan
    exact ⟨run, hrun, hin⟩

end ScopeLint
