import ScopeLint.Flow
import ScopeLint.Proofs.Rule.Check
import ScopeLint.Proofs.Rulebook.Check

/-!
# Findings lie in their unit

Whatever is found in a unit is found on one of its lines and, if at a column, at one of that line or
at its end.
-/

namespace ScopeLint

/-- The line of the finding is one of the unit, of which one without lines has an empty one, and its
column, if it has one, is that of a byte of the line or of its end. -/
structure Finding.LiesIn (f : Finding) (s : Source) : Prop where
  line_lt : f.line < max 1 s.lines.length
  col_le : ∀ col ∈ f.column, col ≤ (s.line f.line).size

variable {s : Source} {o : Outline} {f : Finding}

/-! ## Rules -/

theorem Finding.WarnsIn.liesIn (h : f.WarnsIn s) : f.LiesIn s := by
  obtain ⟨p, content, ⟨hline, hcol⟩, rfl⟩ := h
  refine ⟨hline, ?_⟩
  intro col h
  obtain rfl := Option.some.inj h
  exact hcol

theorem Finding.liesIn_of_line {severity : Severity} {content : String} {line : Nat}
    (h : line < max 1 s.lines.length) : Finding.LiesIn ⟨severity, content, line, none⟩ s :=
  ⟨h, by simp⟩

theorem Rule.liesIn_of_mem_check (h : o.Placed) {r : Rule} (hf : f ∈ r.check o) :
    f.LiesIn o.source := by
  by_cases hr : r.kind = .unknown
  · rw [Rule.check_of_unknown hr, List.mem_singleton] at hf
    rw [hf]
    exact Finding.liesIn_of_line (Nat.lt_of_lt_of_le Nat.zero_lt_one (Nat.le_max_left _ _))
  · exact (Rule.warnsIn_of_mem_check h hr hf).liesIn

/-! ## Flow checks -/

namespace Flow

theorem exists_mem_of_firstBadRead {inert : Inert} {name value : Line} {isBad : Line → Bool}
    {lines : List (Line × Nat)} {index : Nat}
    (h : firstBadRead inert name isBad value lines = some index) :
    ∃ line, (line, index) ∈ lines := by
  have hlater : ∀ {entry : Line × Nat} {rest : List (Line × Nat)},
      (∃ line, (line, index) ∈ rest) → ∃ line, (line, index) ∈ entry :: rest :=
    fun ⟨line, hline⟩ => ⟨line, List.mem_cons_of_mem _ hline⟩
  fun_induction firstBadRead inert name isBad value lines with
  | case1 => cases h
  | case2 _ _ _ _ _ ih => exact hlater (ih h)
  | case3 _ _ _ _ _ _ _ _ ih => exact hlater (ih h)
  | case4 value line index' rest =>
    obtain rfl := Option.some.inj h
    exact ⟨line, List.mem_cons_self⟩
  | case5 _ _ _ _ _ _ _ _ ih => exact hlater (ih h)

theorem lt_of_firstBadRead {inert : Inert} {name value : Line} {isBad : Line → Bool}
    {declared : Nat} {parent : Scope} {index : Nat}
    (h : firstBadRead inert name isBad value (trackedLines o declared parent) = some index) :
    index < o.source.lines.length := by
  obtain ⟨line, hline⟩ := exists_mem_of_firstBadRead h
  have hentry := List.mem_zipIdx_iff_getElem?.mp (List.mem_of_mem_filter hline)
  exact (List.getElem?_eq_some_iff.mp hentry).1

theorem lt_of_nullUse? {id : ScopeId} {index : Nat} (h : nullUse? o id = some index) :
    index < o.source.lines.length := by
  simp only [nullUse?, Option.bind_eq_bind, Option.bind_eq_some_iff] at h
  obtain ⟨found, -, parent, -, h⟩ := h
  exact lt_of_firstBadRead h

theorem lt_of_uninitializedUse? {id : ScopeId} {index : Nat}
    (h : uninitializedUse? o id = some index) : index < o.source.lines.length := by
  simp only [uninitializedUse?, Option.bind_eq_bind, Option.bind_eq_some_iff] at h
  obtain ⟨found, -, parent, -, h⟩ := h
  exact lt_of_firstBadRead h

theorem liesIn_of_mem_findingsOf {use? : ScopeId → Option Nat} {describe : String → String}
    (huse : ∀ id index, use? id = some index → index < o.source.lines.length)
    (hf : f ∈ findingsOf o use? describe) : f.LiesIn o.source := by
  obtain ⟨id, -, hid⟩ := List.mem_filterMap.mp hf
  obtain ⟨index, hindex, rfl⟩ := Option.map_eq_some_iff.mp hid
  exact Finding.liesIn_of_line (Nat.lt_of_lt_of_le (huse id index hindex) (Nat.le_max_right _ _))

theorem liesIn_of_mem_check (hf : f ∈ check o) : f.LiesIn o.source := by
  have hnull := Findings.grouped_empty.extend nullPointerCheck.id
    (findingsOf o (nullUse? o) fun name => "`" ++ name ++ "` will throw a NULL pointer exception")
  unfold check at hf
  rcases hnull.mem_extend.mp hf with hf | hf
  · rcases Findings.grouped_empty.mem_extend.mp hf with hf | hf
    · exact absurd hf Findings.notMem_empty
    · exact liesIn_of_mem_findingsOf (fun _ _ => lt_of_nullUse?) hf
  · exact liesIn_of_mem_findingsOf (fun _ _ => lt_of_uninitializedUse?) hf

end Flow

/-- In a unit that has an outline, whatever a rulebook or the flow checks find lies in the unit. -/
theorem Findings.liesIn_of_mem (h : Outline.ofSource s = .ok o) (book : Rulebook) :
    (∀ f ∈ book.check o, f.LiesIn s) ∧ ∀ f ∈ Flow.check o, f.LiesIn s := by
  obtain rfl := Outline.source_ofSource h
  constructor
  · intro f hf
    obtain ⟨r, -, hf⟩ := Rulebook.mem_check_iff.mp hf
    exact Rule.liesIn_of_mem_check (Outline.placed_ofSource h) hf
  · intro f hf
    exact Flow.liesIn_of_mem_check hf

def uninitializedRead : Source :=
  ⟨"unit.cpp", ["void f() \x7b".toList, "  int a;".toList, "  g = a;".toList, "\x7d".toList]⟩

def unknownAndTabs : Rulebook :=
  ⟨[⟨1, .unknown, "Indentation", .all, none⟩, ⟨2, .tabIndentation, "TabIndentation", .all, none⟩]⟩

theorem Findings.liesIn_of_mem_uninitializedRead :
    ∃ o, Outline.ofSource uninitializedRead = .ok o ∧
      ((unknownAndTabs.check o).size, (Flow.check o).size) = (3, 1) ∧
      (∀ f ∈ unknownAndTabs.check o, f.LiesIn uninitializedRead) ∧
      ∀ f ∈ Flow.check o, f.LiesIn uninitializedRead := by
  obtain ⟨o, h, hsizes⟩ : ∃ o, Outline.ofSource uninitializedRead = .ok o ∧
      ((unknownAndTabs.check o).size, (Flow.check o).size) = (3, 1) :=
    Outline.exists_ofSource (by decide +kernel)
  exact ⟨o, h, hsizes, liesIn_of_mem h unknownAndTabs⟩

end ScopeLint
