import ScopeLint.Proofs.Kind
import ScopeLint.Proofs.Outline.Inert
import ScopeLint.Proofs.Pattern.WholeWord
import ScopeLint.Proofs.Rule.Check

/-!
# Words that rules look for

A rule against a word warns of it once wherever the code of an applicable scope has it, in reading
order, however the scopes overlap. A rule about `return` warns of all but the first in each scope.
-/

namespace ScopeLint

/-! ## Words in code -/

/-- The word stands whole at the position, outside comments and literals. -/
structure Source.HasCodeWord (s : Source) (word : String) (p : Position) : Prop where
  hasWord : (s.line p.line).HasWord word.toList p.col
  outside : ∀ j < Line.size word.toList, (Inert.ofSource s).covers ⟨p.line, p.col + j⟩ = false

namespace Inert

variable {s : Source} {p : Position}

theorem covers_iff : (ofSource s).covers p = true ↔ ∃ x ∈ pieces s, p ∈ x.span := by
  rw [covers, Bool.or_eq_true, inComment_iff, inLiteral_iff]
  constructor
  · rintro (⟨c, hc, hp⟩ | ⟨l, hl, hp⟩)
    · exact ⟨.comment c, mem_comments.mp hc, hp⟩
    · exact ⟨.literal l, mem_literals.mp hl, hp⟩
  · rintro ⟨x | x, hx, hp⟩
    · exact .inl ⟨x, mem_comments.mpr hx, hp⟩
    · exact .inr ⟨x, mem_literals.mpr hx, hp⟩

theorem exists_byteAt?_start {x : Piece} (hx : x ∈ pieces s) :
    ∃ b ∈ [slash, doubleQuote, singleQuote], s.byteAt? x.span.start = some b := by
  have hpiece := ((pieces_tiled s).isPiece hx).1
  cases x with
  | comment c => exact ⟨slash, by decide, hpiece.1⟩
  | literal l =>
    rcases hpiece with ⟨hbyte, -⟩ | ⟨hbyte, -⟩
    · exact ⟨doubleQuote, by decide, hbyte⟩
    · exact ⟨singleQuote, by decide, hbyte⟩

end Inert

theorem Line.IsWhole.notMem_encode {word : Line} (hword : word.IsWhole) {b : UInt8}
    (hb : b ∈ [Inert.slash, Inert.doubleQuote, Inert.singleQuote]) : b ∉ Utf8.encode word := by
  have hbytes : ∀ b ∈ [Inert.slash, Inert.doubleQuote, Inert.singleQuote],
      b.toNat < 0x80 ∧ isWord (Char.ofNat b.toNat) = false := by
    rw [List.forall_mem_cons, List.forall_mem_cons, List.forall_mem_singleton]
    decide
  intro hmem
  obtain ⟨c, hc, hbyte⟩ := List.mem_flatMap.mp hmem
  have hno := (hbytes b hb).2
  rw [← Utf8.toNat_eq_of_mem hbyte (hbytes b hb).1, Char.ofNat_toNat, hword.2 c hc] at hno
  cases hno

theorem Line.HasWord.getElem?_encode {line word : Line} {col j : Nat} (h : line.HasWord word col)
    (hj : j < word.size) : (Utf8.encode line)[col + j]? = (Utf8.encode word)[j]? := by
  obtain ⟨front, back, rfl, rfl, -⟩ := h
  rw [List.append_assoc, Line.encode_append, List.getElem?_append_right (by simp),
    Line.length_encode, Nat.add_sub_cancel_left, Line.encode_append,
    List.getElem?_append_left (by rwa [Line.length_encode])]

namespace Source

variable {s : Source} {word : String} {p : Position}

/-- A word is outside comments and literals if its start is: none of them starts in a word. -/
theorem hasCodeWord_iff (hword : Line.IsWhole word.toList) : s.HasCodeWord word p ↔
    (s.line p.line).HasWord word.toList p.col ∧ (Inert.ofSource s).covers p = false := by
  have hpos : 0 < Line.size word.toList := Nat.pos_of_ne_zero (mt Line.size_eq_zero.mp hword.1)
  refine ⟨fun h => ⟨h.hasWord, h.outside 0 hpos⟩, fun ⟨hhas, hstart⟩ => ⟨hhas, fun j hj => ?_⟩⟩
  by_contra hcovers
  obtain ⟨x, hx, hle, hge⟩ := Inert.covers_iff.mp (Bool.eq_true_of_not_eq_false hcovers)
  have hbehind : p < x.span.start := by
    refine Position.not_le.mp fun hp => ?_
    have hmem : p ∈ x.span := ⟨hp, Position.le_trans (Position.le_after p j) hge⟩
    rw [Inert.covers_iff.mpr ⟨x, hx, hmem⟩] at hstart
    cases hstart
  obtain ⟨b, hb, hbyte⟩ := Inert.exists_byteAt?_start hx
  obtain ⟨i, hi, hat⟩ : ∃ i < Line.size word.toList, x.span.start = p.after i := by
    rw [Position.le_def] at hle
    rw [Position.lt_def] at hbehind
    refine ⟨x.span.start.col - p.col, by simp only at hle; omega, Position.ext ?_ ?_⟩
    · simp only [Position.after_line] at hle ⊢
      omega
    · simp only [Position.after_col] at hle ⊢
      omega
  rw [hat, Source.byteAt?, Option.bind_eq_some_iff] at hbyte
  obtain ⟨line, hline, hbyte⟩ := hbyte
  rw [Line.byteAt?, ← line_eq hline, Position.after_col, Position.after_line,
    hhas.getElem?_encode hi] at hbyte
  exact hword.notMem_encode hb (List.mem_of_getElem? hbyte)

theorem lt_length_of_hasWord (hword : Line.IsWhole word.toList)
    (h : (s.line p.line).HasWord word.toList p.col) : p.line < s.lines.length := by
  obtain ⟨front, back, hline, -⟩ := h
  by_contra hlt
  rw [Source.line, List.getElem?_eq_none (Nat.not_lt.mp hlt), Option.getD_none] at hline
  have hnil := (List.append_eq_nil_iff.mp hline.symm).1
  exact hword.1 (List.append_eq_nil_iff.mp hnil).2

theorem HasCodeWord.le_lastPosition (hword : Line.IsWhole word.toList)
    (h : s.HasCodeWord word p) : p ≤ s.lastPosition := by
  refine Source.le_lastPosition (lt_length_of_hasWord hword h.hasWord) ?_
  obtain ⟨front, back, hline, hcol, -⟩ := h.hasWord
  have hpos : 0 < Line.size word.toList := Nat.pos_of_ne_zero (mt Line.size_eq_zero.mp hword.1)
  rw [hline, hcol, Line.lastCol, Line.size_append, Line.size_append]
  omega

end Source

namespace Outline

variable {s : Source} {o : Outline} {word : String} {p : Position} {kinds : KindSet}

/-! ## Words of a unit -/

/-- The places of a word in the lines of a unit, protected ones as well. -/
def wordPlaces (o : Outline) (word : String) : List Position :=
  o.source.lines.zipIdx.flatMap (wordsOn word)

theorem mem_wordPlaces_iff (hword : Line.IsWhole word.toList) : p ∈ o.wordPlaces word ↔
    p.line < o.source.lines.length ∧ (o.source.line p.line).HasWord word.toList p.col := by
  rw [wordPlaces, List.mem_flatMap]
  constructor
  · rintro ⟨entry, hentry, hp⟩
    obtain ⟨hlt, hline⟩ := Source.mem_zipIdx_lines_iff.mp hentry
    obtain ⟨f, hf, rfl⟩ := List.mem_map.mp hp
    rw [hline] at hf
    exact ⟨hlt, ((Pattern.mem_findAll_wholeWord_iff hword).mp hf).1⟩
  · rintro ⟨hlt, hhas⟩
    refine ⟨(o.source.line p.line, p.line), Source.mem_zipIdx_lines_iff.mpr ⟨hlt, rfl⟩, ?_⟩
    have hf := (Pattern.mem_findAll_wholeWord_iff
      (f := ⟨p.col, p.col + Line.size word.toList, []⟩) hword).mpr ⟨hhas, rfl⟩
    exact List.mem_map.mpr ⟨_, hf, rfl⟩

theorem pairwise_wordPlaces (hword : Line.IsWhole word.toList) :
    (o.wordPlaces word).Pairwise (· < ·) := by
  refine List.pairwise_flatMap.mpr ⟨fun entry _ => ?_, ?_⟩
  · refine List.pairwise_map.mpr ((Pattern.pairwise_findAll_wholeWord hword _).imp ?_)
    exact fun hlt => .inr ⟨rfl, hlt⟩
  · refine (pairwise_zipIdx _).imp fun hlt p hp q hq => ?_
    obtain ⟨f, -, rfl⟩ := List.mem_map.mp hp
    obtain ⟨g, -, rfl⟩ := List.mem_map.mp hq
    exact .inl hlt

theorem flatMap_filter {α β : Type} {keep : α → Bool} {g : α → List β} (items : List α)
    (h : ∀ a, keep a = false → g a = []) : (items.filter keep).flatMap g = items.flatMap g := by
  induction items with
  | nil => rfl
  | cons a items ih => cases ha : keep a <;> simp [ha, ih, h]

theorem wordsWithin_eq (span : Span) : o.wordsWithin span word =
    (o.wordPlaces word).filter fun p => decide (p ∈ span) && !o.inert.covers p := by
  rw [wordsWithin, linesWithin, wordPlaces, List.filter_flatMap, List.filter_flatMap]
  refine flatMap_filter _ fun entry hentry => List.filter_eq_nil_iff.mpr fun p hp => ?_
  obtain ⟨f, -, rfl⟩ := List.mem_map.mp hp
  have hout : (⟨entry.2, f.start⟩ : Position) ∉ span :=
    fun hmem => of_decide_eq_false hentry (Span.hasLine_of_mem hmem)
  simp [hout]

theorem mem_wordsWithin_iff (h : Outline.ofSource s = .ok o) (hword : Line.IsWhole word.toList)
    {span : Span} : p ∈ o.wordsWithin span word ↔ s.HasCodeWord word p ∧ p ∈ span := by
  rw [wordsWithin_eq, List.mem_filter, mem_wordPlaces_iff hword, Source.hasCodeWord_iff hword,
    source_ofSource h, inert_ofSource h, Bool.and_eq_true, decide_eq_true_iff, Bool.not_eq_true']
  constructor
  · rintro ⟨⟨-, hhas⟩, hspan, houtside⟩
    exact ⟨⟨hhas, houtside⟩, hspan⟩
  · rintro ⟨⟨hhas, houtside⟩, hspan⟩
    exact ⟨⟨Source.lt_length_of_hasWord hword hhas, hhas⟩, hspan, houtside⟩

theorem pairwise_wordsWithin (hword : Line.IsWhole word.toList) (span : Span) :
    (o.wordsWithin span word).Pairwise (· < ·) := by
  rw [wordsWithin_eq]
  exact (pairwise_wordPlaces hword).filter _

/-! ## Scopes of a kind -/

def InScopeOf (o : Outline) (kinds : KindSet) (p : Position) : Prop :=
  ∃ id < o.scopes.size, (o.get id).kind.isOf kinds = true ∧ p ∈ (o.get id).span

theorem inScopeOf_union {others : KindSet} :
    o.InScopeOf (kinds ∪ others) p ↔ o.InScopeOf kinds p ∨ o.InScopeOf others p := by
  simp only [InScopeOf, Kind.isOf, KindSet.meets_union, Bool.or_eq_true, or_and_right, and_or_left,
    exists_or]

theorem inScopeOf_source (h : Outline.ofSource s = .ok o) (hword : Line.IsWhole word.toList)
    (hp : s.HasCodeWord word p) (hkinds : kinds.includes .source = true) :
    o.InScopeOf kinds p := by
  have hnested := wellNested_ofSource h
  have hsize := hnested.size_eq
  refine ⟨root, by show 0 < o.scopes.size; omega, ?_, ?_⟩
  · rw [kind_root_ofSource h, Kind.isOf]
    exact KindSet.meets_mono (by decide : KindSet.source.includes .source = true) hkinds (by decide)
  · rw [hnested.span_root]
    exact ⟨Position.origin_le _, hp.le_lastPosition hword⟩

end Outline

/-! ## Findings -/

namespace Rule

variable {s : Source} {o : Outline} {word : String} {p : Position} {kinds : KindSet}

def placesAgainst (o : Outline) (kinds : KindSet) (word : String) : List Position :=
  (o.wordPlaces word).filter fun p =>
    !o.inert.covers p && (o.scopesOf kinds).any fun id => decide (p ∈ (o.get id).span)

theorem checkNoWord_eq : checkNoWord o (o.scopesOf kinds) word =
    (placesAgainst o kinds word).map fun p =>
      Finding.warningAt p.line p.col ("`" ++ word ++ "` is used") := rfl

/-- The rule finds what it would find scope by scope. -/
theorem mem_placesAgainst_iff_wordsWithin : p ∈ placesAgainst o kinds word ↔
    ∃ id ∈ o.scopesOf kinds, p ∈ o.wordsWithin (o.get id).span word := by
  simp only [placesAgainst, Outline.wordsWithin_eq, List.mem_filter, Bool.and_eq_true,
    List.any_eq_true, decide_eq_true_iff]
  constructor
  · rintro ⟨hword, houtside, id, hid, hspan⟩
    exact ⟨id, hid, hword, hspan, houtside⟩
  · rintro ⟨id, hid, hword, hspan, houtside⟩
    exact ⟨hword, houtside, id, hid, hspan⟩

theorem mem_placesAgainst_iff (h : Outline.ofSource s = .ok o)
    (hword : Line.IsWhole word.toList) :
    p ∈ placesAgainst o kinds word ↔ s.HasCodeWord word p ∧ o.InScopeOf kinds p := by
  simp only [mem_placesAgainst_iff_wordsWithin, Outline.mem_wordsWithin_iff h hword,
    Outline.mem_scopesOf_iff h, Outline.InScopeOf]
  constructor
  · rintro ⟨id, ⟨hid, hkind⟩, hhas, hspan⟩
    exact ⟨hhas, id, hid, hkind, hspan⟩
  · rintro ⟨hhas, id, hid, hkind, hspan⟩
    exact ⟨id, ⟨hid, hkind⟩, hhas, hspan⟩

theorem pairwise_placesAgainst (hword : Line.IsWhole word.toList) :
    (placesAgainst o kinds word).Pairwise (· < ·) :=
  (Outline.pairwise_wordPlaces hword).filter _

/-- The findings are one warning of this text at each of the positions that fit, in reading order. -/
def WarnsOnceAt (fs : List Finding) (fits : Position → Prop) (content : String) : Prop :=
  ∃ places : List Position, places.Pairwise (· < ·) ∧ (∀ p, p ∈ places ↔ fits p) ∧
    fs = places.map fun p => Finding.warningAt p.line p.col content

structure WarnsOfWord (s : Source) (o : Outline) (kind : RuleKind) (word : String) : Prop where
  check_eq : ∀ r : Rule, r.kind = kind →
    r.check o = checkNoWord o (o.scopesOf r.applicable) word
  /-- Every word in the code of an applicable scope, and nothing else. -/
  warns : ∀ kinds, WarnsOnceAt (checkNoWord o (o.scopesOf kinds) word)
    (fun p => s.HasCodeWord word p ∧ o.InScopeOf kinds p) ("`" ++ word ++ "` is used")
  /-- The unit as a scope leaves out no word of the code. -/
  warns_source : ∀ kinds : KindSet, kinds.includes .source = true →
    WarnsOnceAt (checkNoWord o (o.scopesOf kinds) word) (s.HasCodeWord word)
      ("`" ++ word ++ "` is used")
  mem_union : ∀ (kinds others : KindSet) (f : Finding),
    f ∈ checkNoWord o (o.scopesOf (kinds ∪ others)) word ↔
      f ∈ checkNoWord o (o.scopesOf kinds) word ∨ f ∈ checkNoWord o (o.scopesOf others) word

/-- What the rules about `return` find: in each applicable scope every `return` of its code but the
first. -/
structure WarnsOfReturns (s : Source) (o : Outline) : Prop where
  check_eq : ∀ r : Rule, r.kind = .singleReturn →
    r.check o = checkSingleReturn o (o.scopesOf r.applicable)
  scopes_once : o.ListsOnce
  warns : ∃ returns : ScopeId → List Position,
    (∀ id, (returns id).Pairwise (· < ·) ∧
      ∀ p, p ∈ returns id ↔ s.HasCodeWord "return" p ∧ p ∈ (o.get id).span) ∧
    ∀ kinds, checkSingleReturn o (o.scopesOf kinds) = (o.scopesOf kinds).flatMap fun id =>
      ((returns id).drop 1).map fun p => Finding.warningAt p.line p.col
        ("`" ++ (o.get id).name ++ "` has more than one return statement")

theorem warnsOfWord_ofSource (h : Outline.ofSource s = .ok o) {kind : RuleKind}
    (hword : Line.IsWhole word.toList)
    (hcheck : ∀ r : Rule, r.kind = kind →
      r.check o = checkNoWord o (o.scopesOf r.applicable) word) : WarnsOfWord s o kind word where
  check_eq := hcheck
  warns kinds := ⟨placesAgainst o kinds word, pairwise_placesAgainst hword,
    fun _ => mem_placesAgainst_iff h hword, rfl⟩
  warns_source kinds hkinds := by
    refine ⟨placesAgainst o kinds word, pairwise_placesAgainst hword, fun p => ?_, rfl⟩
    rw [mem_placesAgainst_iff h hword]
    exact and_iff_left_of_imp fun hp => Outline.inScopeOf_source h hword hp hkinds
  mem_union kinds others f := by
    simp only [checkNoWord_eq, List.mem_map, mem_placesAgainst_iff h hword, Outline.inScopeOf_union,
      and_or_left, or_and_right, exists_or]

theorem warnsOfReturns_ofSource (h : Outline.ofSource s = .ok o) : WarnsOfReturns s o where
  check_eq r hr := by rw [Rule.check, hr]
  scopes_once := Outline.listsOnce_ofSource h
  warns := by
    have hword : Line.IsWhole "return".toList := by decide +kernel
    exact ⟨fun id => o.wordsWithin (o.get id).span "return", fun id =>
      ⟨Outline.pairwise_wordsWithin hword _, fun _ => Outline.mem_wordsWithin_iff h hword⟩,
      fun _ => rfl⟩

/-- In a unit that has an outline, whatever the applicable kinds: the rules against `goto` and
`const_cast` warn exactly once of each of these words in the code of an applicable scope, and the
rule about `return` of all but the first in each. -/
theorem warnsOfWords_ofSource (h : Outline.ofSource s = .ok o) :
    WarnsOfWord s o .noGoto "goto" ∧ WarnsOfWord s o .noConstCast "const_cast" ∧
      WarnsOfReturns s o :=
  ⟨warnsOfWord_ofSource h (by decide +kernel) fun r hr => by rw [Rule.check, hr],
    warnsOfWord_ofSource h (by decide +kernel) fun r hr => by rw [Rule.check, hr],
    warnsOfReturns_ofSource h⟩

def jumpingFunction : Source :=
  ⟨"unit.cpp", ["int f() \x7b".toList, "  if (a) \x7b goto end; return 1; \x7d // goto".toList,
    "end: return gotos; /* return */ \x7d".toList]⟩

theorem warnsOfWords_jumpingFunction : ∃ o, Outline.ofSource jumpingFunction = .ok o ∧
    checkNoWord o (o.scopesOf (.functions ∪ .conditionals)) "goto" =
      [Finding.warningAt 1 11 "`goto` is used"] ∧
    checkSingleReturn o (o.scopesOf .functions) =
      [Finding.warningAt 2 5 "`f` has more than one return statement"] ∧
    WarnsOfWord jumpingFunction o .noGoto "goto" ∧
    WarnsOfWord jumpingFunction o .noConstCast "const_cast" ∧
    WarnsOfReturns jumpingFunction o := by
  obtain ⟨o, h, hgoto, hreturn⟩ : ∃ o, Outline.ofSource jumpingFunction = .ok o ∧
      checkNoWord o (o.scopesOf (.functions ∪ .conditionals)) "goto" =
        [Finding.warningAt 1 11 "`goto` is used"] ∧
      checkSingleReturn o (o.scopesOf .functions) =
        [Finding.warningAt 2 5 "`f` has more than one return statement"] :=
    Outline.exists_ofSource (by decide +kernel)
  exact ⟨o, h, hgoto, hreturn, warnsOfWords_ofSource h⟩

end Rule

end ScopeLint
