import ScopeLint.Proofs.Code.Append
import ScopeLint.Proofs.Extent.Marks
import ScopeLint.Proofs.Region.Alike

/-!
# What macro definitions say

The searches pass over the lines of macro definitions, but extents do not: a bracket or a semicolon
in a definition counts for the scopes around it. Nothing else in a definition matters.
-/

namespace ScopeLint

/-- The units have the same text outside macro definitions, and comments, literals and macros stand
at the same places. -/
structure SameOutsideMacros (a b : Source) : Prop where
  name : a.name = b.name
  length : a.lines.length = b.lines.length
  comments : (Inert.ofSource a).comments.toList.map Comment.span =
    (Inert.ofSource b).comments.toList.map Comment.span
  literals : (Inert.ofSource a).literals = (Inert.ofSource b).literals
  macroRuns : (Code.ofSource a).macroRuns = (Code.ofSource b).macroRuns
  line : ∀ i, (Code.ofSource a).inMacro i = false → a.lines[i]? = b.lines[i]?

def structureBytes : List UInt8 := ['\x7b', '\x7d', '(', ')', ';'].map Char.toUInt8

/-- No code on the lines of macros takes part in an extent. -/
def Code.QuietMacros (code : Code) : Prop :=
  ∀ x ∈ code.bytes, code.inMacro x.pos.line = true → x.byte ∉ structureBytes

instance (code : Code) : Decidable code.QuietMacros :=
  inferInstanceAs (Decidable (∀ x ∈ code.bytes, _ → _))

theorem Delimiters.mem_structureBytes {d : Delimiters} (hd : d ∈ Delimiters.all) {b : UInt8}
    (h : d.Marks b) : b ∈ structureBytes := by
  simp only [Delimiters.all, List.mem_cons, List.not_mem_nil, or_false] at hd
  rcases hd with rfl | rfl | rfl <;> rcases h with rfl | rfl | rfl <;> decide

namespace Code

variable {s : Source}

/-! ## Code on the lines of macros -/

/-- Each run of macro lines has code on its first line. -/
theorem exists_code_of_inMacro {line : Nat} (h : (ofSource s).inMacro line = true) :
    ∃ x ∈ (ofSource s).bytes, isBlankByte x.byte = false ∧ x.pos.line ≤ line ∧
      ∀ i, x.pos.line ≤ i → i ≤ line → (ofSource s).inMacro i = true := by
  obtain ⟨span, hspan, hin⟩ := inMacro_iff_span.mp h
  obtain ⟨run, hrun, rfl⟩ := List.mem_map.mp hspan
  obtain ⟨d, hd, rfl⟩ := List.mem_map.mp hrun
  have hcode := MacroDefinition.code_start_of_mem_ofSource hd
  refine ⟨⟨d.span.start, '#'.toUInt8⟩, mem_bytes.mpr hcode, rfl, ?_, ?_⟩
  · exact MacroDefinition.LineRun.start_span_le_iff.mp hin.1
  · intro i hi hle
    refine inMacro_iff_span.mpr ⟨_, hspan, ?_, ?_⟩
    · exact MacroDefinition.LineRun.start_span_le_iff.mpr hi
    · exact MacroDefinition.LineRun.le_stop_span_iff.mpr
        (Nat.le_trans hle (MacroDefinition.LineRun.le_stop_span_iff.mp hin.2))

theorem QuietMacros.read_bytesAt (h : (ofSource s).QuietMacros) {d : Delimiters}
    (hd : d ∈ Delimiters.all) (start : Position) :
    Extent.read d 0 ((ofSource s).bytesAt start) =
      Extent.read d 0 (((ofSource s).bytes.filter fun x => !(ofSource s).inMacro x.pos.line).filter
        fun x => !decide (x.pos < start)) := by
  rw [List.filter_comm, ← bytesAt_eq_filter]
  refine (Extent.read_filter (fun x hx hin hmarks => ?_) 0).symm
  have hbytes := (mem_bytesAt.mp hx).1
  exact h x hbytes (by simpa using hin) (Delimiters.mem_structureBytes hd hmarks)

theorem QuietMacros.inMacro_of_resolve (h : (ofSource s).QuietMacros) {start p : Position}
    {d : Delimiters} (hd : d ∈ Delimiters.all) (hp : Extent.resolve (ofSource s) start d = .ok p) :
    (ofSource s).inMacro p.line = false := by
  obtain ⟨x, hx, rfl, hend⟩ := Extent.exists_of_resolve hp
  refine Bool.eq_false_iff.mpr fun hin => ?_
  exact h x (mem_bytesAt.mp hx).1 hin (Delimiters.mem_structureBytes hd hend.marks)

end Code

namespace SameOutsideMacros

variable {a b : Source}

theorem inMacro (h : SameOutsideMacros a b) :
    (Code.ofSource a).inMacro = (Code.ofSource b).inMacro := by
  funext line
  unfold Code.inMacro
  rw [h.macroRuns]

theorem symm (h : SameOutsideMacros a b) : SameOutsideMacros b a where
  name := h.name.symm
  length := h.length.symm
  comments := h.comments.symm
  literals := h.literals.symm
  macroRuns := h.macroRuns.symm
  line i hi := by
    rw [← h.inMacro] at hi
    exact (h.line i hi).symm

theorem covers (h : SameOutsideMacros a b) :
    (Inert.ofSource a).covers = (Inert.ofSource b).covers :=
  Inert.covers_congr h.comments h.literals

/-! ## Lines and bytes -/

theorem blankLine (h : SameOutsideMacros a b) {i : Nat}
    (hi : (Code.ofSource a).inMacro i = false) :
    (Code.ofSource a).lines[i]? = (Code.ofSource b).lines[i]? := by
  have hinside := Inert.inComment_congr h.comments
  unfold Code.ofSource
  rw [Inert.getElem?_blankLines, Inert.getElem?_blankLines, h.line i hi]
  simp only [Inert.blankBytes_congr fun col => congrFun hinside ⟨0 + i, col⟩]

theorem mem_bytes_iff (h : SameOutsideMacros a b) {x : CodeByte}
    (hx : (Code.ofSource a).inMacro x.pos.line = false) :
    x ∈ (Code.ofSource a).bytes ↔ x ∈ (Code.ofSource b).bytes := by
  rw [Code.mem_bytes, Code.mem_bytes, h.covers, Source.byteAt?, Source.byteAt?, h.line _ hx]

theorem bytes_outside (h : SameOutsideMacros a b) :
    ((Code.ofSource a).bytes.filter fun x => !(Code.ofSource a).inMacro x.pos.line) =
      (Code.ofSource b).bytes.filter fun x => !(Code.ofSource a).inMacro x.pos.line := by
  refine eq_of_pairwise_of_mem_iff ?_ ?_ ((Code.pairwise_bytes a).filter _)
    ((Code.pairwise_bytes b).filter _) ?_
  · exact fun x => Position.lt_irrefl x.pos
  · exact fun _ _ _ => Position.lt_trans
  · intro x
    rw [List.mem_filter, List.mem_filter]
    refine and_congr_left fun hout => h.mem_bytes_iff ?_
    simpa using hout

/-! ## Extents -/

theorem resolve (h : SameOutsideMacros a b) (ha : (Code.ofSource a).QuietMacros)
    (hb : (Code.ofSource b).QuietMacros) (start : Position) {d : Delimiters}
    (hd : d ∈ Delimiters.all) :
    Extent.resolve (Code.ofSource a) start d = Extent.resolve (Code.ofSource b) start d := by
  unfold Extent.resolve
  rw [ha.read_bytesAt hd, hb.read_bytesAt hd, h.bytes_outside, h.inMacro]

/-- A bracket that comes next in one unit comes next in the other: between them and the line of the
start there is no macro, since it would have code on its first line. -/
theorem nextCode?_of (h : SameOutsideMacros a b) (ha : (Code.ofSource a).QuietMacros)
    {start : Position} (hstart : (Code.ofSource a).inMacro start.line = false) {x : CodeByte}
    (hx : x.byte ∈ structureBytes) (hnext : Extent.nextCode? (Code.ofSource a) start = some x) :
    Extent.nextCode? (Code.ofSource b) start = some x := by
  rw [Extent.nextCode?_eq_some_iff] at hnext ⊢
  obtain ⟨hmem, hle, hcode, hblank⟩ := hnext
  have hout : (Code.ofSource a).inMacro x.pos.line = false := by
    refine Bool.eq_false_iff.mpr fun hin => ?_
    exact ha x hmem hin hx
  refine ⟨(h.mem_bytes_iff hout).mp hmem, hle, hcode, ?_⟩
  intro y hy hfrom hlt
  by_cases hin : (Code.ofSource a).inMacro y.pos.line = true
  · obtain ⟨z, hz, hzcode, hzle, hrun⟩ := Code.exists_code_of_inMacro hin
    have hyx : y.pos.line ≠ x.pos.line := by
      intro heq
      rw [heq, hout] at hin
      cases hin
    have hstartz : ¬z.pos.line ≤ start.line := by
      intro hle
      have hline : start.line ≤ y.pos.line := by
        rw [Position.le_def] at hfrom
        omega
      rw [hrun start.line hle hline] at hstart
      cases hstart
    have hbetween : start ≤ z.pos ∧ z.pos < x.pos := by
      rw [Position.lt_def] at hlt
      rw [Position.le_def, Position.lt_def]
      omega
    rw [hblank z hz hbetween.1 hbetween.2] at hzcode
    cases hzcode
  · refine hblank y ((h.mem_bytes_iff ?_).mpr hy) hfrom hlt
    exact Bool.eq_false_iff.mpr hin

theorem loopStatement?_of (h : SameOutsideMacros a b) (ha : (Code.ofSource a).QuietMacros)
    (hb : (Code.ofSource b).QuietMacros) {p q : Position}
    (hp : (Code.ofSource a).inMacro p.line = false)
    (hq : Extent.loopStatement? (Code.ofSource a) p = some q) :
    Extent.loopStatement? (Code.ofSource b) p = some q := by
  rw [Extent.loopStatement?_eq_some_iff] at hq ⊢
  obtain ⟨opening, closing, statement, hopening, hbracket, hclosing, hstatement, hend, hpos⟩ := hq
  have hclosed := ha.inMacro_of_resolve (by decide) hclosing
  have hbehind : (Code.ofSource a).inMacro (Extent.behind closing).line = false := hclosed
  refine ⟨opening, closing, statement, ?_, hbracket, ?_, ?_, hend, hpos⟩
  · exact h.nextCode?_of ha hp (by rw [hbracket]; decide) hopening
  · rw [← h.resolve ha hb _ (by decide), hclosing]
  · exact h.nextCode?_of ha hbehind (by rw [hend]; decide) hstatement

theorem alikeOutsideMacros (h : SameOutsideMacros a b) (ha : (Code.ofSource a).QuietMacros)
    (hb : (Code.ofSource b).QuietMacros) :
    (Code.ofSource a).AlikeOutsideMacros (Code.ofSource b) where
  length := by rw [Code.length_lines, Code.length_lines, h.length]
  inMacro := h.inMacro
  line _ := h.blankLine
  covers := h.covers
  resolve start _ hd := h.resolve ha hb start hd
  loopStatement? p hp := by
    have hp' := hp
    rw [h.inMacro] at hp'
    ext q
    exact ⟨h.loopStatement?_of ha hb hp, h.symm.loopStatement?_of hb ha hp'⟩

theorem allVariables (h : SameOutsideMacros a b) :
    Region.allVariables (Code.ofSource a) = Region.allVariables (Code.ofSource b) := by
  refine Region.sweep_congr h.inMacro (by rw [Code.length_lines, Code.length_lines, h.length]) ?_
  refine Code.sideBySide_of_lines (fun _ => h.blankLine) fun i line _ => ?_
  have hvariables := @Code.variableOn_congr (Code.ofSource a) (Code.ofSource b) h.covers
  rw [hvariables]

end SameOutsideMacros

/-- Units that differ in their macro definitions alone have the same variables. They have the same
regions and faults throughout where the definitions hold no bracket and no semicolon. -/
theorem searches_of_sameOutsideMacros {a b : Source} (h : SameOutsideMacros a b) :
    Region.allVariables (Code.ofSource a) = Region.allVariables (Code.ofSource b) ∧
      ((Code.ofSource a).QuietMacros → (Code.ofSource b).QuietMacros →
        ∀ search ∈ Region.searches,
          (search (Code.ofSource a)).mapError (Fault.unbalanced a.name) =
            (search (Code.ofSource b)).mapError (Fault.unbalanced b.name)) := by
  refine ⟨h.allVariables, fun ha hb search hsearch => ?_⟩
  rw [(h.alikeOutsideMacros ha hb).agree.search hsearch, h.name]

def macroInFunction (body : String) : Source :=
  ⟨"unit.cpp", ["void f() \x7b".toList, ("#define OPEN " ++ body).toList, "\x7d".toList]⟩

theorem line_macroInFunction (x y : String) :
    ∀ i, i ≠ 1 → (macroInFunction x).lines[i]? = (macroInFunction y).lines[i]?
  | 0, _ => rfl
  | 1, hi => absurd rfl hi
  | _ + 2, _ => rfl

theorem sameOutsideMacros_macroInFunction {x y : String}
    (hcomments : (Inert.ofSource (macroInFunction x)).comments.toList.map Comment.span =
      (Inert.ofSource (macroInFunction y)).comments.toList.map Comment.span)
    (hliterals : (Inert.ofSource (macroInFunction x)).literals =
      (Inert.ofSource (macroInFunction y)).literals)
    (hruns : (Code.ofSource (macroInFunction x)).macroRuns =
      (Code.ofSource (macroInFunction y)).macroRuns)
    (hmacros : (Code.ofSource (macroInFunction x)).inMacro 1 = true) :
    SameOutsideMacros (macroInFunction x) (macroInFunction y) where
  name := rfl
  length := rfl
  comments := hcomments
  literals := hliterals
  macroRuns := hruns
  line i hi := by
    refine line_macroInFunction x y i ?_
    rintro rfl
    rw [hmacros] at hi
    cases hi

theorem searches_quietMacroInFunction :
    SameOutsideMacros (macroInFunction "/* \x7b */ do") (macroInFunction "/* ; */ 1 + x") ∧
      ∀ search ∈ Region.searches,
        (search (Code.ofSource (macroInFunction "/* \x7b */ do"))).mapError
            (Fault.unbalanced "unit.cpp") =
          (search (Code.ofSource (macroInFunction "/* ; */ 1 + x"))).mapError
            (Fault.unbalanced "unit.cpp") := by
  have h : SameOutsideMacros (macroInFunction "/* \x7b */ do") (macroInFunction "/* ; */ 1 + x") :=
    sameOutsideMacros_macroInFunction (by decide +kernel) (by decide +kernel) (by decide +kernel)
      (by decide +kernel)
  exact ⟨h, (searches_of_sameOutsideMacros h).2 (by decide +kernel) (by decide +kernel)⟩

/-- A brace in a macro keeps the function around it from closing. -/
theorem functions_braceInMacro :
    SameOutsideMacros (macroInFunction "\x7b") (macroInFunction "x") ∧
      Region.functions (Code.ofSource (macroInFunction "\x7b")) =
        .error ⟨0, .unclosed '\x7d'⟩ ∧
      Region.functions (Code.ofSource (macroInFunction "x")) =
        .ok [⟨.anyFunction, "f", ⟨⟨0, 0⟩, ⟨2, 0⟩⟩⟩] := by
  refine ⟨?_, by decide +kernel, by decide +kernel⟩
  exact sameOutsideMacros_macroInFunction (by decide +kernel) (by decide +kernel)
    (by decide +kernel) (by decide +kernel)

end ScopeLint
