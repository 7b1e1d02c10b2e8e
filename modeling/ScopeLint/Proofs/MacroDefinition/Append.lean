import ScopeLint.Proofs.Inert.Append
import ScopeLint.Proofs.MacroDefinition.Order

/-!
# Macro definitions of appended lines

Where no comment and no definition goes on at the seam, each side has the definitions it has on its
own.
-/

namespace ScopeLint

namespace MacroDefinition

open Inert (Closed)

variable {name : String} {a b : List Line}

/-! ## On one line -/

theorem directive?_congr {i j : Inert} {m n : Nat} {line : Line}
    (h : ∀ col, i.covers ⟨m, col⟩ = j.covers ⟨n, col⟩) :
    directive? i m line = directive? j n line := by
  unfold directive?
  simp only [h]

section

variable (h : Closed a)
include h

theorem directive?_append_front {index : Nat} (hindex : index < a.length) (line : Line) :
    directive? (Inert.ofSource ⟨name, a ++ b⟩) index line =
      directive? (Inert.ofSource ⟨name, a⟩) index line :=
  directive?_congr fun _ => Inert.covers_append_front h hindex

theorem directive?_append_back (index : Nat) (line : Line) :
    directive? (Inert.ofSource ⟨name, a ++ b⟩) (index + a.length) line =
      directive? (Inert.ofSource ⟨name, b⟩) index line :=
  directive?_congr fun col => Inert.covers_append_back h ⟨index, col⟩

theorem lastColOn_append_front {index : Nat} (hindex : index < a.length) (start : Nat)
    (line : Line) : lastColOn (Inert.ofSource ⟨name, a ++ b⟩) index start line =
      lastColOn (Inert.ofSource ⟨name, a⟩) index start line := by
  unfold lastColOn
  rw [Inert.comments_append h, Array.toList_append, List.find?_append, Array.toList_map,
    List.find?_map]
  cases (Inert.ofSource ⟨name, a⟩).comments.toList.find? fun c =>
      decide ((⟨index, start⟩ : Position) < c.span.start) with
  | some c => rfl
  | none =>
    -- What follows next starts behind the seam, on no line in front of it.
    rw [Option.none_or]
    split
    · rfl
    · rename_i c hc
      obtain ⟨d, -, rfl⟩ := Option.map_eq_some_iff.mp hc
      exact if_neg (Nat.ne_of_gt (Nat.lt_of_lt_of_le hindex (Nat.le_add_left _ _)))

theorem lastColOn_append_back (index start : Nat) (line : Line) :
    lastColOn (Inert.ofSource ⟨name, a ++ b⟩) (index + a.length) start line =
      lastColOn (Inert.ofSource ⟨name, b⟩) index start line := by
  have hfront : (Inert.ofSource ⟨name, a⟩).comments.toList.find? (fun c =>
      decide ((⟨index + a.length, start⟩ : Position) < c.span.start)) = none := by
    rw [List.find?_eq_none]
    intro c hc hlt
    have hpiece := Inert.mem_comments.mp hc
    have hstop := Inert.stop_line_lt_of_mem_pieces hpiece
    have hstart := (Region.fitsIn_of_mem_comments hc).1
    simp only [Position.lt_def, Position.le_def, decide_eq_true_eq, Inert.Piece.span] at *
    omega
  have hdown : ∀ c : Comment,
      (⟨index + a.length, start⟩ : Position) < (c.down a.length).span.start ↔
        ⟨index, start⟩ < c.span.start := fun c => Position.down_lt_down (p := ⟨index, start⟩)
  unfold lastColOn
  rw [Inert.comments_append h, Array.toList_append, List.find?_append, Array.toList_map,
    List.find?_map, hfront, Option.none_or]
  simp only [Function.comp_def, hdown]
  cases (Inert.ofSource ⟨name, b⟩).comments.toList.find? fun c =>
      decide ((⟨index, start⟩ : Position) < c.span.start) with
  | none => rfl
  | some c =>
    have hline : (c.down a.length).span.start.line = index + a.length ↔ c.span.start.line = index :=
      Nat.add_right_cancel_iff
    simp only [Option.map_some, hline]
    rfl

/-! ## On the lines in front of the seam -/

theorem readLines_append_front {begun : Option Begun} {index : Nat} {lines : List Line}
    (hindex : index + lines.length = a.length) (hbegun : lines = [] → begun = none)
    (hlast : ∀ line ∈ lines.getLast?, isContinued line = false) (more : List Line) :
    readLines (Inert.ofSource ⟨name, a ++ b⟩) begun index (lines ++ more) =
      readLines (Inert.ofSource ⟨name, a⟩) begun index lines ++
        readLines (Inert.ofSource ⟨name, a ++ b⟩) none a.length more := by
  induction lines generalizing begun index with
  | nil =>
    obtain rfl := hbegun rfl
    obtain rfl : index = a.length := hindex
    rfl
  | cons line rest ih =>
    have hlt : index < a.length := by
      rw [← hindex, List.length_cons]
      omega
    have hrest : index + 1 + rest.length = a.length := by
      rw [← hindex, List.length_cons]
      omega
    have hlast' : ∀ line ∈ rest.getLast?, isContinued line = false := by
      intro last hrest
      refine hlast last ?_
      rw [List.getLast?_cons, Option.mem_def.mp hrest]
      rfl
    -- A line that is continued is not the last in front of the seam.
    have hne : isContinued line = true → rest ≠ [] := by
      rintro hline rfl
      rw [hlast line rfl] at hline
      cases hline
    have hcontinued : (isContinued line = true ∧ rest ++ more ≠ []) ↔
        (isContinued line = true ∧ rest ≠ []) :=
      and_congr_right fun hline =>
        iff_of_true (List.append_ne_nil_of_left_ne_nil (hne hline) more) (hne hline)
    cases begun with
    | some b =>
      rw [List.cons_append, readLines, readLines]
      simp only [hcontinued]
      split
      · rename_i hmore
        exact ih hrest (fun hempty => absurd hempty hmore.2) hlast'
      · exact congrArg _ (ih hrest (fun _ => rfl) hlast')
    | none =>
      rw [List.cons_append, readLines, readLines, directive?_append_front h hlt]
      simp only [hcontinued, lastColOn_append_front h hlt]
      split
      · exact ih hrest (fun _ => rfl) hlast'
      · split
        · rename_i hmore
          exact ih hrest (fun hempty => absurd hempty hmore.2) hlast'
        · exact congrArg _ (ih hrest (fun _ => rfl) hlast')

/-! ## On the lines behind it -/

theorem readLines_append_back (begun : Option Begun) (index : Nat) (lines : List Line) :
    readLines (Inert.ofSource ⟨name, a ++ b⟩) (begun.map (·.down a.length)) (index + a.length)
        lines =
      (readLines (Inert.ofSource ⟨name, b⟩) begun index lines).map (·.down a.length) := by
  have hnext : ∀ index, index + a.length + 1 = index + 1 + a.length := by omega
  fun_induction readLines (Inert.ofSource ⟨name, b⟩) begun index lines with
  | case1 begun index => cases begun <;> rfl
  | case2 b index line rest text hcontinued ih =>
    rw [Option.map_some, readLines, if_pos hcontinued, hnext]
    exact ih
  | case3 b index line rest text hended ih =>
    rw [Option.map_some, readLines, if_neg hended, hnext]
    exact congrArg _ ih
  | case4 index line rest hnone ih =>
    rw [Option.map_none, readLines, directive?_append_back h, hnone, hnext]
    exact ih
  | case5 index line rest col hcol hcontinued ih =>
    rw [Option.map_none, readLines, directive?_append_back h, hcol, hnext]
    exact (if_pos hcontinued).trans ih
  | case6 index line rest col hcol hended ih =>
    rw [Option.map_none, readLines, directive?_append_back h, hcol, hnext]
    simp only [lastColOn_append_back h]
    exact (if_neg hended).trans (congrArg _ ih)

/-! ## On all lines -/

theorem ofSource_append (hlast : ∀ line ∈ a.getLast?, isContinued line = false) :
    ofSource ⟨name, a ++ b⟩ (Inert.ofSource ⟨name, a ++ b⟩) =
      ofSource ⟨name, a⟩ (Inert.ofSource ⟨name, a⟩) ++
        (ofSource ⟨name, b⟩ (Inert.ofSource ⟨name, b⟩)).map (·.down a.length) := by
  have hback := @readLines_append_back name a b h none 0 b
  rw [Nat.zero_add, Option.map_none] at hback
  unfold ofSource
  rw [readLines_append_front h (Nat.zero_add _) (fun _ => rfl) hlast, hback]

end

end MacroDefinition

/-! ## Lines of macros -/

namespace Code

open MacroDefinition (LineRun isContinued)

variable {name : String} {a b : List Line} (h : Inert.Closed a)
  (hlast : ∀ line ∈ a.getLast?, isContinued line = false)
include h hlast

theorem spans_macroRuns_append :
    (ofSource ⟨name, a ++ b⟩).macroRuns.toList.map LineRun.span =
      (ofSource ⟨name, a⟩).macroRuns.toList.map LineRun.span ++
        ((ofSource ⟨name, b⟩).macroRuns.toList.map LineRun.span).map (·.down a.length) := by
  have hruns : ∀ lines : List Line, (ofSource ⟨name, lines⟩).macroRuns.toList =
      (MacroDefinition.ofSource ⟨name, lines⟩ (Inert.ofSource ⟨name, lines⟩)).map (·.lineRun) :=
    fun _ => rfl
  simp only [hruns, MacroDefinition.ofSource_append h hlast, List.map_append, List.map_map]
  rfl

theorem inMacro_append_front {line : Nat} (hline : line < a.length) :
    (ofSource ⟨name, a ++ b⟩).inMacro line = (ofSource ⟨name, a⟩).inMacro line := by
  rw [Bool.eq_iff_iff, inMacro_iff_span, inMacro_iff_span, spans_macroRuns_append h hlast]
  exact Span.exists_mem_append_front hline

theorem inMacro_append_back (line : Nat) :
    (ofSource ⟨name, a ++ b⟩).inMacro (line + a.length) =
      (ofSource ⟨name, b⟩).inMacro line := by
  rw [Bool.eq_iff_iff, inMacro_iff_span, inMacro_iff_span, spans_macroRuns_append h hlast]
  refine Span.exists_mem_append_back (p := ⟨line, 0⟩) fun s hs => ?_
  obtain ⟨run, hrun, rfl⟩ := List.mem_map.mp hs
  obtain ⟨d, hd, rfl⟩ := List.mem_map.mp hrun
  exact MacroDefinition.stop_line_lt_of_mem_ofSource hd

end Code

end ScopeLint
