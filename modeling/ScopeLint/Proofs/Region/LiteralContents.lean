import ScopeLint.Proofs.Code.Literal
import ScopeLint.Proofs.Region.Literal

/-!
# What literals say

Literals are not blanked out before first lines are looked for, so what a literal says may matter.
It does not where each literal ends with a quote, but for one character: a closing parenthesis in a
literal may end the parameters of a function.
-/

namespace ScopeLint

/-- The units differ in bytes of literals alone, and where comments, literals and macros stand does
not depend on these bytes. -/
structure SameOutsideLiterals (a b : Source) : Prop where
  name : a.name = b.name
  sizes : a.lines.map Line.size = b.lines.map Line.size
  comments : (Inert.ofSource a).comments.toList.map Comment.span =
    (Inert.ofSource b).comments.toList.map Comment.span
  literals : (Inert.ofSource a).literals = (Inert.ofSource b).literals
  macroRuns : (Code.ofSource a).macroRuns = (Code.ofSource b).macroRuns
  byteAt? : ∀ p, (∀ l ∈ (Inert.ofSource a).literals.toList, p ∉ l) → a.byteAt? p = b.byteAt? p

namespace SameOutsideLiterals

variable {a b : Source} {index : Nat} {x y : Line} {ok : Char → Prop}

theorem symm (h : SameOutsideLiterals a b) : SameOutsideLiterals b a where
  name := h.name.symm
  sizes := h.sizes.symm
  comments := h.comments.symm
  literals := h.literals.symm
  macroRuns := h.macroRuns.symm
  byteAt? p hp := by
    rw [← h.literals] at hp
    exact (h.byteAt? p hp).symm

theorem covers (h : SameOutsideLiterals a b) :
    (Inert.ofSource a).covers = (Inert.ofSource b).covers :=
  Inert.covers_congr h.comments h.literals

theorem inMacro (h : SameOutsideLiterals a b) :
    (Code.ofSource a).inMacro = (Code.ofSource b).inMacro := by
  funext line
  unfold Code.inMacro
  rw [h.macroRuns]

theorem length (h : SameOutsideLiterals a b) :
    (Code.ofSource a).lines.length = (Code.ofSource b).lines.length := by
  rw [Code.length_lines, Code.length_lines, Source.length_lines_eq h.sizes]

/-! ## Bytes -/

theorem byteAt?_of_not_inLiteral (h : SameOutsideLiterals a b) {p : Position}
    (hp : (Inert.ofSource a).inLiteral p = false) : a.byteAt? p = b.byteAt? p := by
  apply h.byteAt?
  intro l hl hin
  rw [Inert.inLiteral_iff.mpr ⟨l, hl, hin⟩] at hp
  cases hp

theorem bytes (h : SameOutsideLiterals a b) :
    (Code.ofSource a).bytes = (Code.ofSource b).bytes :=
  Code.bytes_congr h.covers fun _ hfree =>
    h.byteAt?_of_not_inLiteral (Inert.inLiteral_of_covers hfree)

theorem resolve (h : SameOutsideLiterals a b) :
    Extent.resolve (Code.ofSource a) = Extent.resolve (Code.ofSource b) :=
  Code.resolve_congr h.bytes

/-! ## Lines -/

theorem getElem?_encode (h : SameOutsideLiterals a b)
    (hx : (Code.ofSource a).lines[index]? = some x)
    (hy : (Code.ofSource b).lines[index]? = some y) {col : Nat}
    (hout : (Inert.ofSource a).inLiteral ⟨index, col⟩ = false) :
    (Utf8.encode x)[col]? = (Utf8.encode y)[col]? := by
  rw [Code.getElem?_encode_line hx, Code.getElem?_encode_line hy,
    h.byteAt?_of_not_inLiteral hout, Inert.inComment_congr h.comments]

theorem size_eq (h : SameOutsideLiterals a b) (hx : (Code.ofSource a).lines[index]? = some x)
    (hy : (Code.ofSource b).lines[index]? = some y) : x.size = y.size := by
  rw [Inert.size_blankLine hx, Inert.size_blankLine hy, Source.size_line_eq h.sizes]

theorem sameOutside (h : SameOutsideLiterals a b) (ha : (Code.ofSource a).ClosedLiterals ok)
    (hb : (Code.ofSource b).ClosedLiterals ok) (hx : (Code.ofSource a).lines[index]? = some x)
    (hy : (Code.ofSource b).lines[index]? = some y) :
    Line.SameOutside (fun col => (Inert.ofSource a).inLiteral ⟨index, col⟩) ok 0 x y := by
  refine Line.sameOutside_of_bytes (Inert.columns_literals a index)
    (fun _ hout => h.getElem?_encode hx hy hout) (fun _ _ hl => ha.closedAt hx hl)
    (fun _ _ hl => hb.closedAt hy ?_) (h.size_eq hx hy)
  rwa [← h.literals]

theorem line_eq_of_unquoted (h : SameOutsideLiterals a b)
    (hx : (Code.ofSource a).lines[index]? = some x)
    (hy : (Code.ofSource b).lines[index]? = some y) (hquotes : x.Unquoted) : x = y := by
  have hout : ∀ col, (Inert.ofSource a).inLiteral ⟨index, col⟩ = false := by
    refine fun col => Bool.eq_false_iff.mpr fun hin => ?_
    obtain ⟨first, last, hl, -⟩ := ((Inert.columns_literals a index).inside_iff col).mp hin
    obtain ⟨front, q, back, rfl, -, hq⟩ := Code.exists_quote hx hl
    exact hquotes q (List.mem_append_right _ List.mem_cons_self) hq
  have hencode : Utf8.encode x = Utf8.encode y :=
    List.ext_getElem? fun col => h.getElem?_encode hx hy (hout col)
  rw [← Utf8.decodeLossy_encode x, hencode, Utf8.decodeLossy_encode]

theorem alike (h : SameOutsideLiterals a b) (ha : (Code.ofSource a).ClosedLiterals ok)
    (hb : (Code.ofSource b).ClosedLiterals ok) :
    (Code.ofSource a).AlikeOutsideLiterals ok (Code.ofSource b) where
  length := h.length
  bytes := h.bytes
  covers := h.covers
  inMacro := h.inMacro
  line _ _ _ hx hy := h.sameOutside ha hb hx hy

/-! ## Namespaces and enumerations -/

theorem matchLine_eq (h : SameOutsideLiterals a b) {p : Pattern}
    (hp : ∀ line f, p.matchLine line = some f → line.Unquoted)
    (hx : (Code.ofSource a).lines[index]? = some x)
    (hy : (Code.ofSource b).lines[index]? = some y) :
    x = y ∨ p.matchLine x = none ∧ p.matchLine y = none := by
  cases hfx : p.matchLine x with
  | some f => exact .inl (h.line_eq_of_unquoted hx hy (hp x f hfx))
  | none =>
    cases hfy : p.matchLine y with
    | some f => exact .inl (h.symm.line_eq_of_unquoted hy hx (hp y f hfy)).symm
    | none => exact .inr ⟨rfl, rfl⟩

theorem namespaceOn_eq (h : SameOutsideLiterals a b)
    (hx : (Code.ofSource a).lines[index]? = some x)
    (hy : (Code.ofSource b).lines[index]? = some y) :
    Region.namespaceOn (Code.ofSource a) index x =
      Region.namespaceOn (Code.ofSource b) index y := by
  unfold Region.namespaceOn
  rcases h.matchLine_eq (fun _ _ => Pattern.unquoted_of_namespace) hx hy with rfl | ⟨hnx, hny⟩
  · split
    · rfl
    · exact Code.braced?_congr h.covers (fun _ => by rw [h.resolve]) fun _ => rfl
  · rw [hnx, hny]

theorem enumOn_eq (h : SameOutsideLiterals a b) (hx : (Code.ofSource a).lines[index]? = some x)
    (hy : (Code.ofSource b).lines[index]? = some y) :
    Region.enumOn (Code.ofSource a) index x = Region.enumOn (Code.ofSource b) index y := by
  unfold Region.enumOn
  rcases h.matchLine_eq (fun _ _ => Pattern.unquoted_of_enum) hx hy with rfl | ⟨hnx, hny⟩
  · split
    · rfl
    · exact Code.braced?_congr h.covers (fun _ => by rw [h.resolve]) fun _ => rfl
  · rw [hnx, hny]

theorem namespaces_eq (h : SameOutsideLiterals a b) :
    Region.namespaces (Code.ofSource a) = Region.namespaces (Code.ofSource b) := by
  refine Region.sweep_congr h.inMacro h.length fun i x y _ hx hy => ?_
  rw [Nat.zero_add]
  exact h.namespaceOn_eq hx hy

theorem enums_eq (h : SameOutsideLiterals a b) :
    Region.enums (Code.ofSource a) = Region.enums (Code.ofSource b) := by
  refine Region.enumsFrom_congr h.inMacro 0 h.length fun i x y _ hx hy => ?_
  rw [Nat.zero_add]
  exact h.enumOn_eq hx hy

end SameOutsideLiterals

/-- Units that differ in the contents of literals alone have the same namespaces and enumerations.
They have the same classes, variables and conditionals where all literals are closed, and the same
regions and faults throughout where no literal holds a closing parenthesis either. -/
theorem searches_of_sameOutsideLiterals {a b : Source} (h : SameOutsideLiterals a b) :
    (∀ search ∈ [Region.namespaces, Region.enums],
        (search (Code.ofSource a)).mapError (Fault.unbalanced a.name) =
          (search (Code.ofSource b)).mapError (Fault.unbalanced b.name)) ∧
      ((Code.ofSource a).ClosedLiterals (· ≠ '\n') → (Code.ofSource b).ClosedLiterals (· ≠ '\n') →
        ∀ search ∈ [Region.classes, Region.allVariables, Region.conditionals],
          (search (Code.ofSource a)).mapError (Fault.unbalanced a.name) =
            (search (Code.ofSource b)).mapError (Fault.unbalanced b.name)) ∧
      ((Code.ofSource a).ClosedLiterals (fun c => c ≠ '\n' ∧ c ≠ ')') →
        (Code.ofSource b).ClosedLiterals (fun c => c ≠ '\n' ∧ c ≠ ')') →
        ∀ search ∈ Region.searches,
          (search (Code.ofSource a)).mapError (Fault.unbalanced a.name) =
            (search (Code.ofSource b)).mapError (Fault.unbalanced b.name)) := by
  have hbraced : ∀ search ∈ [Region.namespaces, Region.enums],
      search (Code.ofSource a) = search (Code.ofSource b) := by
    simp only [List.mem_cons, List.not_mem_nil, or_false, forall_eq_or_imp, forall_eq]
    exact ⟨h.namespaces_eq, h.enums_eq⟩
  have hclosed (ha : (Code.ofSource a).ClosedLiterals (· ≠ '\n'))
      (hb : (Code.ofSource b).ClosedLiterals (· ≠ '\n')) :
      ∀ search ∈ [Region.classes, Region.allVariables, Region.conditionals],
        search (Code.ofSource a) = search (Code.ofSource b) := by
    have halike := h.alike ha hb
    simp only [List.mem_cons, List.not_mem_nil, or_false, forall_eq_or_imp, forall_eq]
    exact ⟨halike.classes_eq fun _ hc => hc, halike.allVariables_eq fun _ hc => hc,
      halike.conditionals_eq⟩
  refine ⟨fun search hsearch => ?_, fun ha hb search hsearch => ?_, fun ha hb search hsearch => ?_⟩
  · rw [hbraced search hsearch, h.name]
  · rw [hclosed ha hb search hsearch, h.name]
  · have hfunctions := (h.alike ha hb).functions_eq (fun _ hc => hc.1) fun _ hc => hc.2
    have hrest := hclosed (ha.imp fun _ hc => hc.1) (hb.imp fun _ hc => hc.1)
    have hall : search (Code.ofSource a) = search (Code.ofSource b) := by
      simp only [Region.searches, List.mem_cons, List.not_mem_nil, or_false] at hsearch
      rcases hsearch with rfl | rfl | rfl | rfl | rfl | rfl
      · exact h.namespaces_eq
      · exact h.enums_eq
      · exact hrest _ (by simp)
      · exact hfunctions
      · exact hrest _ (by simp)
      · exact hrest _ (by simp)
    rw [hall, h.name]

def quotedCall (text char : String) : Source :=
  ⟨"unit.cpp", ["void f() \x7b".toList,
    ("  if (g(\"" ++ text ++ "\")) h('" ++ char ++ "');").toList, "\x7d".toList]⟩

theorem searches_quotedCall :
    SameOutsideLiterals (quotedCall "\x7b é if (;" "\x7d") (quotedCall "while do//" "\"") ∧
      ∀ search ∈ Region.searches,
        (search (Code.ofSource (quotedCall "\x7b é if (;" "\x7d"))).mapError
            (Fault.unbalanced "unit.cpp") =
          (search (Code.ofSource (quotedCall "while do//" "\""))).mapError
            (Fault.unbalanced "unit.cpp") := by
  have hsizes : (quotedCall "\x7b é if (;" "\x7d").lines.map Line.size =
      (quotedCall "while do//" "\"").lines.map Line.size := by decide +kernel
  have h : SameOutsideLiterals (quotedCall "\x7b é if (;" "\x7d") (quotedCall "while do//" "\"") :=
    { name := rfl
      sizes := hsizes
      comments := by decide +kernel
      literals := by decide +kernel
      macroRuns := by decide +kernel
      byteAt? := Source.byteAt?_eq_of_forall_lt hsizes (by decide +kernel) }
  exact ⟨h, (searches_of_sameOutsideLiterals h).2.2 (by decide +kernel) (by decide +kernel)⟩

def quotedArgument (text : String) : Source :=
  ⟨"unit.cpp", [("REGISTER(\"" ++ text ++ "\",").toList, "         b)".toList]⟩

/-- A closing parenthesis in a literal makes a call look like a function, which then has no end. -/
theorem functions_parenthesisInLiteral :
    SameOutsideLiterals (quotedArgument "a)") (quotedArgument "a!") ∧
      Region.functions (Code.ofSource (quotedArgument "a)")) = .error ⟨0, .unclosed '\x7d'⟩ ∧
      Region.functions (Code.ofSource (quotedArgument "a!")) = .ok [] := by
  have hsizes : (quotedArgument "a)").lines.map Line.size =
      (quotedArgument "a!").lines.map Line.size := by decide +kernel
  refine ⟨?_, by decide +kernel, by decide +kernel⟩
  exact
    { name := rfl
      sizes := hsizes
      comments := by decide +kernel
      literals := by decide +kernel
      macroRuns := by decide +kernel
      byteAt? := Source.byteAt?_eq_of_forall_lt hsizes (by decide +kernel) }

end ScopeLint
