import ScopeLint.Proofs.Outline.Inert
import ScopeLint.Proofs.Outline.Kinds
import ScopeLint.Proofs.Region.Opening
import ScopeLint.Proofs.Rule.Check

/-!
# Opening braces that rules look at

The rules on opening braces look at the first brace in the code of a scope. If the scope ends with a
brace, this is the one its end closes, and one of the two rules warns of it. Where the clause of a
`for` has braces, the rules look at a brace of the clause.
-/

namespace ScopeLint

namespace Outline

variable {s : Source} {o : Outline} {span : Span} {p : Position} {byte : UInt8}

/-! ## First bytes -/

theorem pairwise_bytesOn (entry : Line × Nat) : (bytesOn byte entry).Pairwise (· < ·) := by
  refine (pairwise_zipIdx (Utf8.encode entry.1)).filterMap _ fun a b hlt p hp q hq => ?_
  simp only [Option.ite_none_right_eq_some, Option.some.injEq] at hp hq
  rw [← hp.2, ← hq.2]
  exact .inr ⟨rfl, hlt⟩

def bytePlaces (o : Outline) (span : Span) (byte : UInt8) : List Position :=
  (o.linesWithin span).flatMap (bytesOn byte)

theorem mem_bytePlaces_iff :
    p ∈ o.bytePlaces span byte ↔ span.HasLine p.line ∧ o.source.byteAt? p = some byte := by
  simp only [bytePlaces, linesWithin, List.mem_flatMap, List.mem_filter, decide_eq_true_iff,
    mem_bytesOn_iff, Prod.exists, List.mem_zipIdx_iff_getElem?]
  constructor
  · rintro ⟨line, index, ⟨hline, hspan⟩, rfl, hbyte⟩
    exact ⟨hspan, (Source.byteAt?_eq hline p.col).trans hbyte⟩
  · rintro ⟨hspan, hbyte⟩
    obtain ⟨line, hline, hbyte⟩ := Option.bind_eq_some_iff.mp hbyte
    exact ⟨line, p.line, ⟨hline, hspan⟩, rfl, hbyte⟩

theorem pairwise_bytePlaces : (o.bytePlaces span byte).Pairwise (· < ·) := by
  refine List.pairwise_flatMap.mpr ⟨fun entry _ => pairwise_bytesOn entry, ?_⟩
  refine ((pairwise_zipIdx _).filter _).imp fun hlt p hp q hq => .inl ?_
  rw [(mem_bytesOn_iff.mp hp).1, (mem_bytesOn_iff.mp hq).1]
  exact hlt

theorem firstWithin?_eq_some_iff (h : Outline.ofSource s = .ok o) {c : Char} :
    o.firstWithin? span c = some p ↔
      (s.HasCode p c.toUInt8 ∧ p ∈ span) ∧ ∀ q, s.HasCode q c.toUInt8 → q ∈ span → p ≤ q := by
  have hfits : ∀ q, q ∈ o.bytePlaces span c.toUInt8 ∧
      (decide (q ∈ span) && !o.inert.covers q) = true ↔ s.HasCode q c.toUInt8 ∧ q ∈ span := by
    intro q
    rw [mem_bytePlaces_iff, source_ofSource h, inert_ofSource h, Bool.and_eq_true,
      decide_eq_true_iff, Bool.not_eq_true']
    constructor
    · rintro ⟨⟨-, hbyte⟩, hspan, hfree⟩
      exact ⟨⟨hfree, hbyte⟩, hspan⟩
    · rintro ⟨⟨hfree, hbyte⟩, hspan⟩
      exact ⟨⟨Span.hasLine_of_mem hspan, hbyte⟩, hspan, hfree⟩
  have hasymm : ∀ p q : Position, p < q → ¬q < p :=
    fun p _ hlt hgt => Position.lt_irrefl p (Position.lt_trans hlt hgt)
  rw [firstWithin?, ← bytePlaces, find?_eq_some_iff_of_pairwise hasymm pairwise_bytePlaces,
    ← and_assoc, hfits]
  refine and_congr_right fun _ => forall_congr' fun q => ?_
  rw [Position.not_lt, ← and_imp, hfits, and_imp]

theorem firstWithin?_of_firstBrace (h : Outline.ofSource s = .ok o)
    (hfirst : s.FirstBrace span.start p) (hlt : p < span.stop) :
    o.firstWithin? span '\x7b' = some p :=
  (firstWithin?_eq_some_iff h).mpr
    ⟨⟨hfirst.hasCode, hfirst.start_le, Position.le_of_lt hlt⟩,
      fun q hq hspan => hfirst.le_of_hasCode q hq hspan.1⟩

end Outline

/-! ## Scopes with braces -/

def Scope.bracedKinds : List Kind :=
  [.namespaceBlock, .classBlock, .enumBlock, .freeFunction, .classFunction, .conditional]

theorem Region.kind_mem_bracedKinds {kind container : Kind} {name : String}
    (hfound : kind ∈ foundKinds) (h : settledKind kind name container ∈ Scope.bracedKinds) :
    kind ∈ bracedKinds := by
  by_cases hvariable : kind = .anyVariable
  · rw [hvariable, settledKind_variable] at h
    split_ifs at h <;> simp [Scope.bracedKinds] at h
  · by_cases hfunction : kind = .anyFunction
    · simp [hfunction, bracedKinds]
    · rw [settledKind_of_ne name container hfunction hvariable] at h
      revert hfound h
      cases kind <;> decide

theorem Region.settledKind_eq_conditional_iff {kind container : Kind} {name : String} :
    settledKind kind name container = .conditional ↔ kind = .conditional := by
  rcases settledKind_cases kind name container with ⟨hkept, -⟩ | ⟨hkind, hsettled⟩
  · rw [hkept]
  · constructor <;> intro h
    · simp [h] at hsettled
    · simp [h] at hkind

namespace Outline

variable {s : Source} {o : Outline} {id : ScopeId}

def HasBracedClause (s : Source) (o : Outline) (id : ScopeId) : Prop :=
  (o.get id).kind = .conditional ∧ (o.get id).name = "for" ∧
    Region.BracedClause s (o.get id).span

/-- A scope that ends with a brace is closed from the first brace of its code on, unless that is a
brace of the clause of a `for`. -/
theorem exists_firstWithin? (h : Outline.ofSource s = .ok o) (hid : id < o.scopes.size)
    (hkind : (o.get id).kind ∈ Scope.bracedKinds)
    (hstop : s.byteAt? (o.get id).span.stop = some '\x7d'.toUInt8) :
    ∃ p, o.firstWithin? (o.get id).span '\x7b' = some p ∧
      (Extent.resolve (Code.ofSource s) p .braces = .ok (o.get id).span.stop ↔
        ¬HasBracedClause s o id) := by
  have hroot : id ≠ root := by
    rintro rfl
    rw [kind_root_ofSource h] at hkind
    exact absurd hkind (by decide)
  obtain ⟨regions, hregions, r, hr, container, hregion⟩ := exists_region_ofSource h hid hroot
  obtain ⟨hsettled, hname, hspan⟩ := Region.mk.inj hregion
  rw [HasBracedClause, hsettled, hname, hspan, Region.settledKind_eq_conditional_iff]
  rw [hsettled] at hkind
  rw [hspan] at hstop
  have hfound := Region.kind_mem_foundKinds hregions r hr
  obtain ⟨q, hfirst, hlt, hcloses⟩ := Region.opens_of_mem_ofCode hregions r hr
    (Region.kind_mem_bracedKinds hfound hkind) hstop
  exact ⟨q, firstWithin?_of_firstBrace h hfirst hlt, hcloses⟩

end Outline

/-! ## Findings -/

namespace Rule

variable {s : Source} {o : Outline} {id : ScopeId} {p : Position}

/-- The rules on opening braces, and where they want the brace. -/
def openingStyles : List (RuleKind × BraceStyle) :=
  [(.curlyBracketsOpenSameLine, .sameLine), (.curlyBracketsOpenSeparateLine, .separateLine)]

theorem checkOpening_eq_flatMap (ids : List ScopeId) (style : BraceStyle) :
    checkOpening o ids style = ids.flatMap fun id => checkOpening o [id] style := by
  induction ids with
  | nil => rfl
  | cons id rest ih =>
    rw [List.flatMap_cons, ← ih]
    exact List.filterMap_append (l := [id])

theorem check_of_openingStyle {r : Rule} {style : BraceStyle}
    (h : (r.kind, style) ∈ openingStyles) :
    r.check o = checkOpening o (o.scopesOf r.applicable) style := by
  simp only [openingStyles, List.mem_cons, Prod.mk.injEq, List.not_mem_nil, or_false] at h
  rcases h with ⟨hkind, rfl⟩ | ⟨hkind, rfl⟩ <;> rw [check, hkind]

theorem checkOpening_of_firstWithin? (h : o.firstWithin? (o.get id).span '\x7b' = some p)
    (style : BraceStyle) : checkOpening o [id] style =
      if style.accepts (o.hasCodeBefore p) then []
      else [Finding.warningAt p.line p.col (openingText (o.get id).name style)] := by
  simp only [checkOpening, List.filterMap_cons, List.filterMap_nil, h, Option.bind_some]
  split_ifs <;> rfl

/-- A brace has code in front of it or not, so that it fits one style only. -/
theorem exists_style_not_accepts (codeBefore : Bool) : ∃ style : BraceStyle,
    style.accepts codeBefore = false ∧ ∀ other, other ≠ style → other.accepts codeBefore = true := by
  cases codeBefore with
  | false => exact ⟨.sameLine, rfl, fun other hother => by cases other <;> trivial⟩
  | true => exact ⟨.separateLine, rfl, fun other hother => by cases other <;> trivial⟩

/-- The brace that the rules look at in a scope, and what they find there. -/
structure JudgesOpening (s : Source) (o : Outline) (id : ScopeId) (p : Position) : Prop where
  first : o.firstWithin? (o.get id).span '\x7b' = some p
  /-- The end of the scope closes the brace, except behind a clause with braces. -/
  closes_iff : Extent.resolve (Code.ofSource s) p .braces = .ok (o.get id).span.stop ↔
    ¬o.HasBracedClause s id
  warns : ∃ style,
    checkOpening o [id] style =
        [Finding.warningAt p.line p.col (openingText (o.get id).name style)] ∧
      ∀ other, other ≠ style → checkOpening o [id] other = []

structure JudgesOpenings (s : Source) (o : Outline) : Prop where
  check_eq : ∀ (r : Rule) (style : BraceStyle), (r.kind, style) ∈ openingStyles →
    r.check o = (o.scopesOf r.applicable).flatMap fun id => checkOpening o [id] style
  scopes_once : o.ListsOnce
  judges : ∀ id < o.scopes.size, (o.get id).kind ∈ Scope.bracedKinds →
    s.byteAt? (o.get id).span.stop = some '\x7d'.toUInt8 → ∃ p, JudgesOpening s o id p

/-- In each scope that ends with a brace, exactly one of the rules on opening braces warns, and it
does so at the brace that is closed by the end, unless the scope is a `for` with braces in its
clause. -/
theorem judgesOpenings_ofSource (h : Outline.ofSource s = .ok o) : JudgesOpenings s o where
  check_eq r style hstyle := by rw [check_of_openingStyle hstyle, ← checkOpening_eq_flatMap]
  scopes_once := Outline.listsOnce_ofSource h
  judges id hid hkind hstop := by
    obtain ⟨p, hfirst, hcloses⟩ := Outline.exists_firstWithin? h hid hkind hstop
    obtain ⟨style, hrefused, hothers⟩ := exists_style_not_accepts (o.hasCodeBefore p)
    refine ⟨p, hfirst, hcloses, style, ?_, fun other hother => ?_⟩
    · rw [checkOpening_of_firstWithin? hfirst, hrefused, if_neg Bool.false_ne_true]
    · rw [checkOpening_of_firstWithin? hfirst, if_pos (hothers other hother)]

def bracedLoop : Source :=
  ⟨"unit.cpp", ["void f()".toList, "\x7b".toList, "  for (int i : all) \x7b use(i); \x7d".toList,
    "\x7d".toList]⟩

theorem judgesOpenings_bracedLoop : ∃ o, Outline.ofSource bracedLoop = .ok o ∧
    checkOpening o (o.scopesOf (.functions ∪ .conditionals)) .sameLine =
      [Finding.warningAt 1 0
        "Opening brace of `f` should be on the same line as its declaration"] ∧
    checkOpening o (o.scopesOf (.functions ∪ .conditionals)) .separateLine =
      [Finding.warningAt 2 20 "Opening brace of `for` should be on its own line"] ∧
    JudgesOpenings bracedLoop o := by
  obtain ⟨o, h, hsame, hseparate⟩ : ∃ o, Outline.ofSource bracedLoop = .ok o ∧
      checkOpening o (o.scopesOf (.functions ∪ .conditionals)) .sameLine =
        [Finding.warningAt 1 0
          "Opening brace of `f` should be on the same line as its declaration"] ∧
      checkOpening o (o.scopesOf (.functions ∪ .conditionals)) .separateLine =
        [Finding.warningAt 2 20 "Opening brace of `for` should be on its own line"] :=
    Outline.exists_ofSource (by decide +kernel)
  exact ⟨o, h, hsame, hseparate, judgesOpenings_ofSource h⟩

def loopOverList : Source :=
  ⟨"unit.cpp", ["void f() \x7b".toList, "  for (int x : \x7b1, 2\x7d)".toList, "  \x7b".toList,
    "    use( x );".toList, "  \x7d".toList, "\x7d".toList]⟩

/-- The rules look at the brace of the list, which the end of the loop does not close, and neither of
them looks at the brace of the body. -/
theorem firstWithin?_loopOverList : ∃ o, Outline.ofSource loopOverList = .ok o ∧
    (o.get 2).kind = .conditional ∧ (o.get 2).span = ⟨⟨1, 2⟩, ⟨4, 2⟩⟩ ∧
    loopOverList.byteAt? ⟨4, 2⟩ = some '\x7d'.toUInt8 ∧
    o.firstWithin? (o.get 2).span '\x7b' = some ⟨1, 15⟩ ∧
    Extent.resolve (Code.ofSource loopOverList) ⟨1, 15⟩ .braces = .ok ⟨1, 20⟩ ∧
    Extent.resolve (Code.ofSource loopOverList) ⟨2, 2⟩ .braces = .ok ⟨4, 2⟩ ∧
    checkOpening o (o.scopesOf .conditionals) .sameLine = [] ∧
    checkOpening o (o.scopesOf .conditionals) .separateLine =
      [Finding.warningAt 1 15 "Opening brace of `for` should be on its own line"] :=
  Outline.exists_ofSource (by decide +kernel)

end Rule

end ScopeLint
