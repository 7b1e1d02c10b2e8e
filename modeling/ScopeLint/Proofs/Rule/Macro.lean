import ScopeLint.Proofs.MacroDefinition.Name
import ScopeLint.Proofs.Outline.Inert
import ScopeLint.Proofs.Rule.Check

/-!
# Macros that rules find

The rules on macros look for a name in the whole text of a definition. They find the name behind the
`#define` where the definition starts, unless another `#define` of the text comes in between: one in
the comment in front, or one further on where the definition itself has no name.
-/

namespace ScopeLint

/-! ## Definitions as scopes -/

namespace Outline

variable {s : Source} {o : Outline} {id : ScopeId}

theorem exists_macroDefinition (h : Outline.ofSource s = .ok o) (hid : id < o.scopes.size)
    (hkind : (o.get id).kind = .globalDefine) :
    ∃ d ∈ MacroDefinition.ofSource s (Inert.ofSource s),
      (o.get id).name = d.text ∧ (o.get id).span = d.span := by
  have hroot : id ≠ root := by
    rintro rfl
    rw [kind_root_ofSource h] at hkind
    cases hkind
  obtain ⟨regions, hregions, r, hr, container, hregion⟩ := exists_region_ofSource h hid hroot
  obtain ⟨hsettled, hname, hspan⟩ := Region.mk.inj hregion
  have hdefine : r.kind.isOf .globalDefines = true := by
    rw [← (Region.isOf_settledKind (by simp) r.kind r.name container).1, ← hsettled, hkind]
    decide
  obtain ⟨d, hd, rfl⟩ := Region.exists_ofMacro_eq hregions hr hdefine
  exact ⟨d, hd, hname, hspan⟩

end Outline

/-! ## Findings -/

namespace Rule

variable {s : Source} {o : Outline} {id : ScopeId}

/-- What the rule against macros says of a definition at the position that defines `m`. -/
def defineFinding (p : Position) (m : Option Macro) : Finding :=
  Finding.warningAt p.line p.col
    ("Macro `" ++ String.ofList ((m.map Macro.name).getD []) ++ "` is defined")

def functionFindings (p : Position) (m : Option Macro) : List Finding :=
  ((m.filter Macro.isFunction).map fun m => Finding.warningAt p.line p.col
    ("Function-like macro `" ++ String.ofList m.name ++ "`")).toList

/-- What both rules say settles what is defined, as no name is empty. -/
theorem eq_of_findings {p : Position} {a b : Option Macro} (ha : ∀ m, a = some m → m.name ≠ [])
    (hb : ∀ m, b = some m → m.name ≠ []) (hdefine : defineFinding p a = defineFinding p b)
    (hfunctions : functionFindings p a = functionFindings p b) : a = b := by
  have hname : (a.map Macro.name).getD [] = (b.map Macro.name).getD [] := by
    have hcontent := congrArg (fun f : Finding => f.content.toList) hdefine
    simpa [defineFinding, Finding.warningAt] using hcontent
  cases a with
  | none =>
    cases b with
    | none => rfl
    | some n => exact absurd hname.symm (hb n rfl)
  | some m =>
    cases b with
    | none => exact absurd hname (ha m rfl)
    | some n =>
      obtain ⟨name, isFunction⟩ := m
      obtain ⟨other, alsoFunction⟩ := n
      obtain rfl : name = other := hname
      cases isFunction <;> cases alsoFunction <;> first | rfl | cases hfunctions

theorem checkNoDefine_singleton (o : Outline) (id : ScopeId) : checkNoDefine o [id] =
    [defineFinding (o.get id).span.start (Line.macros (o.get id).name.toList).head?] := by
  simp only [checkNoDefine, List.map_singleton, macroName?, ← Pattern.find_macroHead]
  cases Pattern.macroHead.find (o.get id).name.toList <;> rfl

theorem checkNoMacroFunctions_singleton (o : Outline) (id : ScopeId) :
    checkNoMacroFunctions o [id] =
      functionFindings (o.get id).span.start (Line.macros (o.get id).name.toList).head? := by
  simp only [checkNoMacroFunctions, List.filterMap_eq_flatMap_toList, List.flatMap_singleton,
    macroName?, ← Pattern.find_macroHead]
  cases Pattern.macroHead.find (o.get id).name.toList with
  | none => rfl
  | some f =>
    rw [functionFindings, Option.map_some, Option.map_some, Option.bind_some, Option.filter_some,
      Pattern.Found.macroIn]
    cases f.part? .parameters <;> rfl

/-- Both rules say of the scope what a `#define` with `rest` behind it defines. -/
def SaysOwn (o : Outline) (id : ScopeId) (rest : Line) : Prop :=
  checkNoDefine o [id] = [defineFinding (o.get id).span.start rest.macroBehind?] ∧
    checkNoMacroFunctions o [id] = functionFindings (o.get id).span.start rest.macroBehind?

/-- What the rules on macros find in a definition, written with `front` before its `#define` and
`rest` behind it on the line, and `more` on the lines that it goes on with. -/
structure JudgesMacro (s : Source) (o : Outline) (id : ScopeId) (front rest more : Line) :
    Prop where
  define : s.DefinesAt (o.get id).span.start front rest
  more_eq : more = s.glued ((o.get id).span.start.line + 1)
    ((o.get id).span.stop.line - (o.get id).span.start.line)
  /-- Both rules read the first macro of the text. -/
  checkNoDefine_eq : checkNoDefine o [id] = [defineFinding (o.get id).span.start
    (MacroDefinition.macrosAround front rest more).head?]
  checkNoMacroFunctions_eq : checkNoMacroFunctions o [id] =
    functionFindings (o.get id).span.start (MacroDefinition.macrosAround front rest more).head?
  /-- They say what the definition itself defines exactly if that comes first. -/
  own_iff : SaysOwn o id rest ↔
    (MacroDefinition.macrosAround front rest more).head? = rest.macroBehind?
  /-- That is so if there is none in front of its `#define`, and none behind one that defines
  nothing. -/
  own : front.macros = [] → (rest.macroBehind? = none → (rest ++ more).macros = []) →
    SaysOwn o id rest

structure JudgesMacros (s : Source) (o : Outline) : Prop where
  noDefine_eq : ∀ r : Rule, r.kind = .noDefine →
    r.check o = (o.scopesOf r.applicable).flatMap fun id => checkNoDefine o [id]
  noMacroFunctions_eq : ∀ r : Rule, r.kind = .noMacroFunctions →
    r.check o = (o.scopesOf r.applicable).flatMap fun id => checkNoMacroFunctions o [id]
  scopes_once : o.ListsOnce
  judges : ∀ id < o.scopes.size, (o.get id).kind = .globalDefine →
    ∃ front rest more, JudgesMacro s o id front rest more

theorem head?_append_toList {α : Type} {front back : List α} {m : Option α} (hfront : front = [])
    (hback : m = none → back = []) : (front ++ m.toList ++ back).head? = m := by
  rw [hfront, List.nil_append]
  cases m with
  | none => rw [hback rfl]; rfl
  | some m => rfl

theorem judgesMacro_of_writtenAs {d : MacroDefinition} {front rest more : Line}
    (hname : (o.get id).name = d.text) (hspan : (o.get id).span = d.span)
    (h : MacroDefinition.WrittenAs s d front rest more) :
    JudgesMacro s o id front rest more := by
  have hdefine := checkNoDefine_singleton o id
  have hfunctions := checkNoMacroFunctions_singleton o id
  rw [hname, h.macros_text] at hdefine hfunctions
  have hiff : SaysOwn o id rest ↔
      (MacroDefinition.macrosAround front rest more).head? = rest.macroBehind? := by
    rw [SaysOwn, hdefine, hfunctions, ← h.macros_text]
    constructor
    · rintro ⟨hdefine, hfunctions⟩
      refine eq_of_findings (fun m hm => ?_) (fun m hm => ?_) (List.singleton_inj.mp hdefine)
        hfunctions
      · exact Line.name_ne_nil_of_mem_macros (List.mem_of_mem_head? hm)
      · exact Line.name_ne_nil_of_macroBehind? hm
    · intro hown
      rw [hown]
      exact ⟨rfl, rfl⟩
  exact ⟨hspan ▸ h.define, hspan ▸ h.more_eq, hdefine, hfunctions, hiff,
    fun hfront hback => hiff.mpr (head?_append_toList hfront hback)⟩

/-- The rules on macros name what is defined by the `#define` where a definition starts, and warn of
parameters exactly if the name is followed by a parenthesis, unless another `#define` of the text
comes first: then they name that one. -/
theorem judgesMacros_ofSource (h : Outline.ofSource s = .ok o) : JudgesMacros s o where
  noDefine_eq r hr := by rw [check, hr]; exact List.map_eq_flatMap
  noMacroFunctions_eq r hr := by
    rw [check, hr]
    show checkNoMacroFunctions o _ = _
    simp only [checkNoMacroFunctions, List.filterMap_eq_flatMap_toList, List.flatMap_singleton]
  scopes_once := Outline.listsOnce_ofSource h
  judges id hid hkind := by
    obtain ⟨d, hd, hname, hspan⟩ := Outline.exists_macroDefinition h hid hkind
    obtain ⟨front, rest, more, hwritten⟩ := MacroDefinition.exists_writtenAs hd
    exact ⟨front, rest, more, judgesMacro_of_writtenAs hname hspan hwritten⟩

def macroUnit : Source :=
  ⟨"unit.cpp", ["#define SQUARE(x) \\".toList, "  ((x) * (x))".toList,
    "/* limit */ #define MAX (10)".toList, "#define".toList]⟩

theorem judgesMacros_macroUnit : ∃ o, Outline.ofSource macroUnit = .ok o ∧
    checkNoDefine o (o.scopesOf .globalDefines) =
      [Finding.warningAt 0 0 "Macro `SQUARE` is defined",
        Finding.warningAt 2 12 "Macro `MAX` is defined",
        Finding.warningAt 3 0 "Macro `` is defined"] ∧
    checkNoMacroFunctions o (o.scopesOf .globalDefines) =
      [Finding.warningAt 0 0 "Function-like macro `SQUARE`"] ∧
    JudgesMacros macroUnit o := by
  obtain ⟨o, h, hdefines, hfunctions⟩ : ∃ o, Outline.ofSource macroUnit = .ok o ∧
      checkNoDefine o (o.scopesOf .globalDefines) =
        [Finding.warningAt 0 0 "Macro `SQUARE` is defined",
          Finding.warningAt 2 12 "Macro `MAX` is defined",
          Finding.warningAt 3 0 "Macro `` is defined"] ∧
      checkNoMacroFunctions o (o.scopesOf .globalDefines) =
        [Finding.warningAt 0 0 "Function-like macro `SQUARE`"] :=
    Outline.exists_ofSource (by decide +kernel)
  exact ⟨o, h, hdefines, hfunctions, judgesMacros_ofSource h⟩

/-- A macro behind a comment that has the definition of another. -/
def replacedMacro : Source := ⟨"unit.cpp", ["/* #define A */ #define B 1".toList]⟩

/-- The rule against macros names the one of the comment. -/
theorem checkNoDefine_replacedMacro : ∃ o, Outline.ofSource replacedMacro = .ok o ∧
    (o.get 2).kind = .globalDefine ∧ (o.get 2).span.start = ⟨0, 16⟩ ∧
    replacedMacro.DefinesAt ⟨0, 16⟩ "/* #define A */ ".toList " B 1".toList ∧
    Line.macroBehind? " B 1".toList = some ⟨"B".toList, false⟩ ∧
    checkNoDefine o [2] = [Finding.warningAt 0 16 "Macro `A` is defined"] := by
  obtain ⟨o, h, hkind, hstart, hfound⟩ : ∃ o, Outline.ofSource replacedMacro = .ok o ∧
      (o.get 2).kind = .globalDefine ∧ (o.get 2).span.start = ⟨0, 16⟩ ∧
      checkNoDefine o [2] = [Finding.warningAt 0 16 "Macro `A` is defined"] :=
    Outline.exists_ofSource (by decide +kernel)
  exact ⟨o, h, hkind, hstart, ⟨by decide, by decide⟩, by decide, hfound⟩

end Rule

end ScopeLint
