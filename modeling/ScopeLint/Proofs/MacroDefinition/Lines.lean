import ScopeLint.Proofs.MacroDefinition.Order

/-!
# The lines of macro definitions

A definition takes the line of its directive and each line that a backslash on the line before leads
to. The lines it takes are passed over, and may look like directives themselves: they still lead to
no other lines than it has taken.
-/

namespace ScopeLint

namespace MacroDefinition

variable {s : Source} {inert : Inert} {begun : Option Begun} {index : Nat} {lines : List Line}
  {d : MacroDefinition}

/-- A directive stands on the line, outside comments and literals. -/
def HasDirective (s : Source) (inert : Inert) (index : Nat) : Prop :=
  ∃ line f found, s.lines[index]? = some line ∧ Pattern.directiveHead.matchLine line = some f ∧
    f.part? .keyword = some found ∧ inert.covers ⟨index, found.start⟩ = false

def Continues (s : Source) (index : Nat) : Prop :=
  ∃ line, s.lines[index]? = some line ∧ (trimEnd line).getLast? = some '\\'

theorem hasDirective_iff {line : Line} (hline : s.lines[index]? = some line) :
    HasDirective s inert index ↔ ∃ col, directive? inert index line = some col := by
  constructor
  · rintro ⟨line', f, found, hline', hf, hpart, hfree⟩
    obtain rfl := Option.some.inj (hline.symm.trans hline')
    refine ⟨found.start, ?_⟩
    rw [directive?, hf, Option.bind_some, hpart, Option.bind_some, if_neg (by simp [hfree])]
  · rintro ⟨col, hcol⟩
    obtain ⟨⟨f, found, hf, hpart, rfl⟩, hfree⟩ := exists_found_of_directive? hcol
    exact ⟨line, f, found, hline, hf, hpart, hfree⟩

theorem continues_iff {line : Line} (hline : s.lines[index]? = some line) :
    Continues s index ↔ isContinued line = true := by
  rw [isContinued, beq_iff_eq]
  constructor
  · rintro ⟨line', hline', hlast⟩
    obtain rfl := Option.some.inj (hline.symm.trans hline')
    exact hlast
  · exact fun hlast => ⟨line, hline, hlast⟩

/-! ## Lines of one definition -/

theorem continues_of_mem_readLines (hlines : s.lines.drop index = lines)
    (hbegun : ∀ b, begun = some b → ∀ i, b.start.line ≤ i → i < index → Continues s i)
    (hd : d ∈ readLines inert begun index lines) :
    ∀ i, d.span.start.line ≤ i → i < d.span.stop.line → Continues s i := by
  fun_induction readLines inert begun index lines with
  | case1 => cases hd
  | case2 b index line rest text hcontinued ih =>
    obtain ⟨hline, hrest⟩ := getElem?_of_drop_eq_cons hlines
    refine ih hrest ?_ hd
    rintro b' ⟨⟩ i hstart hlt
    rcases Nat.lt_succ_iff_lt_or_eq.mp hlt with hlt | rfl
    · exact hbegun b rfl i hstart hlt
    · exact (continues_iff hline).mpr hcontinued.1
  | case3 b index line rest text hended ih =>
    obtain ⟨hline, hrest⟩ := getElem?_of_drop_eq_cons hlines
    rcases List.mem_cons.mp hd with rfl | hd
    · exact hbegun b rfl
    · exact ih hrest (by simp) hd
  | case4 index line rest hnone ih =>
    obtain ⟨hline, hrest⟩ := getElem?_of_drop_eq_cons hlines
    exact ih hrest (by simp) hd
  | case5 index line rest col hcol hcontinued ih =>
    obtain ⟨hline, hrest⟩ := getElem?_of_drop_eq_cons hlines
    refine ih hrest ?_ hd
    rintro b' ⟨⟩ i hstart hlt
    obtain rfl : i = index := Nat.le_antisymm (Nat.le_of_lt_succ hlt) hstart
    exact (continues_iff hline).mpr hcontinued.1
  | case6 index line rest col hcol hended ih =>
    obtain ⟨hline, hrest⟩ := getElem?_of_drop_eq_cons hlines
    rcases List.mem_cons.mp hd with rfl | hd
    · exact fun i hstart hlt => absurd (Nat.lt_of_le_of_lt hstart hlt) (Nat.lt_irrefl index)
    · exact ih hrest (by simp) hd

theorem eq_length_of_continues_stop (hlines : s.lines.drop index = lines)
    (hd : d ∈ readLines inert begun index lines) (hstop : Continues s d.span.stop.line) :
    d.span.stop.line + 1 = s.lines.length := by
  have hlast : ∀ {index line rest}, s.lines[index]? = some line → s.lines.drop (index + 1) = rest →
      ¬(isContinued line = true ∧ rest ≠ []) → Continues s index → index + 1 = s.lines.length := by
    intro index line rest hline hrest hended hcontinues
    have hempty : rest = [] :=
      Decidable.not_not.mp fun hne => hended ⟨(continues_iff hline).mp hcontinues, hne⟩
    have hlt := (List.getElem?_eq_some_iff.mp hline).1
    have hle := List.drop_eq_nil_iff.mp (hrest.trans hempty)
    omega
  fun_induction readLines inert begun index lines with
  | case1 => cases hd
  | case2 _ _ _ _ _ _ ih | case4 _ _ _ _ ih | case5 _ _ _ _ _ _ ih =>
    exact ih (getElem?_of_drop_eq_cons hlines).2 hd
  | case3 b index line rest text hended ih =>
    obtain ⟨hline, hrest⟩ := getElem?_of_drop_eq_cons hlines
    rcases List.mem_cons.mp hd with rfl | hd
    · exact hlast hline hrest hended hstop
    · exact ih hrest hd
  | case6 index line rest col hcol hended ih =>
    obtain ⟨hline, hrest⟩ := getElem?_of_drop_eq_cons hlines
    rcases List.mem_cons.mp hd with rfl | hd
    · exact hlast hline hrest hended hstop
    · exact ih hrest hd

/-! ## Directives -/

theorem exists_mem_readLines_begun (inert : Inert) (b : Begun) (index : Nat) (hlines : lines ≠ []) :
    ∃ d ∈ readLines inert (some b) index lines,
      d.span.start = b.start ∧ index ≤ d.span.stop.line := by
  induction lines generalizing b index with
  | nil => exact absurd rfl hlines
  | cons line rest ih =>
    rw [readLines]
    split
    · rename_i hcontinued
      obtain ⟨d, hd, hstart, hstop⟩ := ih ⟨b.start, b.text ++ line⟩ (index + 1) hcontinued.2
      exact ⟨d, hd, hstart, Nat.le_of_succ_le hstop⟩
    · exact ⟨_, List.mem_cons_self, rfl, Nat.le_refl index⟩

/-- The line of each directive is taken, be it by a definition that starts there or by one that goes
on over it. -/
theorem exists_mem_of_hasDirective {i : Nat} (hlines : s.lines.drop index = lines)
    (hbegun : ∀ b, begun = some b → b.start.line < index) (hi : index ≤ i)
    (hdirective : HasDirective s inert i) :
    ∃ d ∈ readLines inert begun index lines,
      d.span.start.line ≤ i ∧ i ≤ d.span.stop.line := by
  have hgoesOn : ∀ {b : Begun} {index : Nat} {rest : List Line}, rest ≠ [] → b.start.line ≤ index →
      ∃ d ∈ readLines inert (some b) (index + 1) rest,
        d.span.start.line ≤ index ∧ index ≤ d.span.stop.line := by
    intro b index rest hrest hstart
    obtain ⟨d, hd, hbegins, hstop⟩ := exists_mem_readLines_begun inert b (index + 1) hrest
    exact ⟨d, hd, hbegins ▸ hstart, Nat.le_of_succ_le hstop⟩
  have hcons : ∀ {d : MacroDefinition} {ds : List MacroDefinition},
      (∃ d ∈ ds, d.span.start.line ≤ i ∧ i ≤ d.span.stop.line) →
        ∃ d' ∈ d :: ds, d'.span.start.line ≤ i ∧ i ≤ d'.span.stop.line :=
    fun ⟨d, hd, htakes⟩ => ⟨d, List.mem_cons_of_mem _ hd, htakes⟩
  fun_induction readLines inert begun index lines with
  | case1 begun index =>
    obtain ⟨line, f, found, hline, -⟩ := hdirective
    have hlt := (List.getElem?_eq_some_iff.mp hline).1
    have hle := List.drop_eq_nil_iff.mp hlines
    omega
  | case2 b index line rest text hcontinued ih =>
    obtain ⟨hline, hrest⟩ := getElem?_of_drop_eq_cons hlines
    have hstart := Nat.le_of_lt (hbegun b rfl)
    rcases Nat.eq_or_lt_of_le hi with rfl | hi
    · exact hgoesOn hcontinued.2 hstart
    · refine ih hrest ?_ hi
      rintro b' ⟨⟩
      exact Nat.lt_succ_of_le hstart
  | case3 b index line rest text hended ih =>
    obtain ⟨hline, hrest⟩ := getElem?_of_drop_eq_cons hlines
    rcases Nat.eq_or_lt_of_le hi with rfl | hi
    · exact ⟨_, List.mem_cons_self, Nat.le_of_lt (hbegun b rfl), Nat.le_refl index⟩
    · exact hcons (ih hrest (by simp) hi)
  | case4 index line rest hnone ih =>
    obtain ⟨hline, hrest⟩ := getElem?_of_drop_eq_cons hlines
    rcases Nat.eq_or_lt_of_le hi with rfl | hi
    · obtain ⟨col, hcol⟩ := (hasDirective_iff hline).mp hdirective
      rw [hnone] at hcol
      cases hcol
    · exact ih hrest (by simp) hi
  | case5 index line rest col hcol hcontinued ih =>
    obtain ⟨hline, hrest⟩ := getElem?_of_drop_eq_cons hlines
    rcases Nat.eq_or_lt_of_le hi with rfl | hi
    · exact hgoesOn hcontinued.2 (Nat.le_refl index)
    · refine ih hrest ?_ hi
      rintro b' ⟨⟩
      exact Nat.lt_succ_self index
  | case6 index line rest col hcol hended ih =>
    obtain ⟨hline, hrest⟩ := getElem?_of_drop_eq_cons hlines
    rcases Nat.eq_or_lt_of_le hi with rfl | hi
    · exact ⟨_, List.mem_cons_self, Nat.le_refl index, Nat.le_refl index⟩
    · exact hcons (ih hrest (by simp) hi)

theorem hasDirective_of_mem_ofSource (hd : d ∈ ofSource s inert) :
    HasDirective s inert d.span.start.line := by
  refine start_of_mem_readLines (P := fun p => HasDirective s inert p.line) ?_ (by simp) hd
  intro i line col hline hcol
  rw [Nat.zero_add] at hcol ⊢
  exact (hasDirective_iff hline).mpr ⟨col, hcol⟩

/-! ## Lines of all definitions -/

/-- The definitions of a unit take those lines that a directive leads to. -/
theorem exists_mem_ofSource_iff {line : Nat} (hline : line < s.lines.length) :
    (∃ d ∈ ofSource s inert, d.span.start.line ≤ line ∧ line ≤ d.span.stop.line) ↔
      ∃ first ≤ line, HasDirective s inert first ∧
        ∀ i, first ≤ i → i < line → Continues s i := by
  constructor
  · rintro ⟨d, hd, hstart, hstop⟩
    refine ⟨d.span.start.line, hstart, hasDirective_of_mem_ofSource hd, fun i hi hlt => ?_⟩
    exact continues_of_mem_readLines rfl (by simp) hd i hi (Nat.lt_of_lt_of_le hlt hstop)
  · rintro ⟨first, hfirst, hdirective, hcontinues⟩
    obtain ⟨d, hd, hstart, hstop⟩ : ∃ d ∈ ofSource s inert,
        d.span.start.line ≤ first ∧ first ≤ d.span.stop.line :=
      exists_mem_of_hasDirective rfl (by simp) (Nat.zero_le first) hdirective
    refine ⟨d, hd, Nat.le_trans hstart hfirst, Nat.not_lt.mp fun hpassed => ?_⟩
    -- The last line of the definition ends in a backslash then, but the unit goes on.
    have hend := eq_length_of_continues_stop rfl hd (hcontinues _ hstop hpassed)
    omega

theorem runAt?_eq_find? (s : Source) (line : Nat) : runAt? (Code.ofSource s).macroRuns line =
    ((Code.ofSource s).macros.find? fun d =>
      decide (d.span.start.line ≤ line ∧ line ≤ d.span.stop.line)).map lineRun := by
  have hruns : (Code.ofSource s).macroRuns.toList = (Code.ofSource s).macros.map (·.lineRun) := rfl
  have htakes : ∀ d : MacroDefinition, (⟨line, 0⟩ : Position) ∈ d.lineRun.span ↔
      d.span.start.line ≤ line ∧ line ≤ d.span.stop.line :=
    fun d => and_congr LineRun.start_span_le_iff LineRun.le_stop_span_iff
  rw [runAt?_eq_findContaining (inOrder_runs s), findContaining_eq_find? (inOrder_runs s), hruns,
    List.find?_map]
  simp only [Function.comp_def, htakes]

/-- The macro definitions of a code are on the lines that directives and backslashes lead to. -/
structure TakesLines (s : Source) (code : Code) : Prop where
  start_le_stop : ∀ d ∈ code.macros, d.span.start.line ≤ d.span.stop.line
  inOrder : code.macros.Pairwise fun a b => a.span.stop.line < b.span.start.line
  inMacro_iff : ∀ line < s.lines.length, (code.inMacro line = true ↔
    ∃ first ≤ line, HasDirective s code.inert first ∧
      ∀ i, first ≤ i → i < line → Continues s i)
  runAt?_eq : ∀ line, runAt? code.macroRuns line =
    (code.macros.find? fun d =>
      decide (d.span.start.line ≤ line ∧ line ≤ d.span.stop.line)).map lineRun
  stop_eq : ∀ d ∈ code.macros, Continues s d.span.stop.line →
    d.span.stop.line + 1 = s.lines.length

/-- Whether a line belongs to a macro definition is known from the directives and the backslashes of
the unit. -/
theorem takesLines_ofSource (s : Source) : TakesLines s (Code.ofSource s) where
  start_le_stop d hd := by
    have hfits := (fitsIn_of_mem_ofSource hd).1
    rw [Position.le_def] at hfits
    omega
  inOrder := pairwise_ofSource s
  inMacro_iff line hline := by
    rw [← exists_mem_ofSource_iff hline, Code.inMacro, runAt?_eq_find?, Option.isSome_map,
      List.find?_isSome]
    simp only [decide_eq_true_eq]
    rfl
  runAt?_eq := runAt?_eq_find? s
  stop_eq _ hd := eq_length_of_continues_stop rfl hd

/-- The second line looks like a directive, and the last one goes on to a line that is not there. -/
example : (MacroDefinition.ofSource ⟨"unit.cpp", ["#define A \\".toList, "#define B \\ ".toList,
    "int a;".toList, "#define C \\".toList]⟩ ⟨#[], #[]⟩).map lineRun = [⟨0, 2⟩, ⟨3, 3⟩] := by
  decide +kernel

end MacroDefinition

end ScopeLint
