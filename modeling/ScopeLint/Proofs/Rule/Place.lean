import ScopeLint.Proofs.Outline.WellNested
import ScopeLint.Proofs.Region.Start
import ScopeLint.Rule.Check

/-!
# Places in a scope lie in the unit

Scopes start in their unit, and the words, bytes and lines that are looked up in a scope are there.
-/

namespace ScopeLint.Outline

variable {s : Source} {o : Outline}

/-! ## Scopes -/

/-- Every scope starts in the unit, as do the numbers that are those of no scope. -/
def Placed (o : Outline) : Prop := ∀ id, o.source.HasPlace (o.get id).span.start

theorem placed_ofSorted {inert : Inert} {regions : List Region}
    (h : ∀ r ∈ regions, s.HasPlace r.span.start) : (ofSorted s inert regions).Placed := by
  intro id
  show s.HasPlace _
  by_cases hid : id < (ofSorted s inert regions).scopes.size
  · rcases eq_root_or_exists_place hid with rfl | ⟨place, r, rfl, hr⟩
    · rw [get_ofSorted_root]
      exact Source.hasPlace_origin
    · rw [get_ofSorted_succ hr]
      exact h r (List.mem_of_getElem? hr)
  · rw [size_ofSorted] at hid
    rw [get_ofSorted_of_le (Nat.not_lt.mp hid)]
    exact Source.hasPlace_origin

theorem placed_ofSource (h : Outline.ofSource s = .ok o) : o.Placed := by
  obtain ⟨regions, hregions, rfl⟩ := Region.exists_of_map_eq_ok h
  refine placed_ofSorted fun r hr => ?_
  have hadmitted := Region.mem_of_mem_sortByStart hr
  exact Region.hasPlace_of_mem_ofCode hregions r (Region.mem_of_mem_admitted hadmitted)

theorem source_ofSource (h : Outline.ofSource s = .ok o) : o.source = s := by
  obtain ⟨regions, -, rfl⟩ := Region.exists_of_map_eq_ok h
  rfl

theorem kind_root_ofSource (h : Outline.ofSource s = .ok o) : (o.get root).kind = .source := by
  obtain ⟨regions, -, rfl⟩ := Region.exists_of_map_eq_ok h
  exact congrArg Scope.kind get_ofSorted_root

/-! ## Words and bytes -/

theorem hasPlace_of_mem_zipIdx {entry : Line × Nat} (h : entry ∈ s.lines.zipIdx) {col : Nat}
    (hcol : col ≤ entry.1.size) : s.HasPlace ⟨entry.2, col⟩ :=
  Source.hasPlace_of_line (List.mem_zipIdx_iff_getElem?.mp h) hcol

theorem hasPlace_of_mem_wordsOn {word : String} {entry : Line × Nat} {p : Position}
    (hentry : entry ∈ s.lines.zipIdx) (hp : p ∈ wordsOn word entry) : s.HasPlace p := by
  obtain ⟨f, hf, rfl⟩ := List.mem_map.mp hp
  exact hasPlace_of_mem_zipIdx hentry (Pattern.start_le_of_mem_findAll hf)

theorem hasPlace_of_mem_wordsWithin {span : Span} {word : String} {p : Position}
    (hp : p ∈ o.wordsWithin span word) : o.source.HasPlace p := by
  obtain ⟨entry, hentry, hp⟩ := List.mem_flatMap.mp (List.mem_of_mem_filter hp)
  exact hasPlace_of_mem_wordsOn (List.mem_of_mem_filter hentry) hp

theorem mem_bytesOn_iff {byte : UInt8} {entry : Line × Nat} {p : Position} :
    p ∈ bytesOn byte entry ↔ p.line = entry.2 ∧ entry.1.byteAt? p.col = some byte := by
  simp only [bytesOn, List.mem_filterMap, Prod.exists, List.mem_zipIdx_iff_getElem?,
    Option.ite_none_right_eq_some, Option.some.injEq, Line.byteAt?]
  constructor
  · rintro ⟨b, col, hb, rfl, rfl⟩
    exact ⟨rfl, hb⟩
  · rintro ⟨hline, hb⟩
    exact ⟨byte, p.col, hb, rfl, Position.ext hline.symm rfl⟩

theorem hasPlace_of_mem_bytesOn {byte : UInt8} {entry : Line × Nat} {p : Position}
    (hentry : entry ∈ s.lines.zipIdx) (hp : p ∈ bytesOn byte entry) : s.HasPlace p := by
  obtain ⟨hline, hbyte⟩ := mem_bytesOn_iff.mp hp
  have hcol := (List.getElem?_eq_some_iff.mp hbyte).1
  rw [Line.length_encode] at hcol
  have hplace := hasPlace_of_mem_zipIdx hentry (Nat.le_of_lt hcol)
  rwa [← hline] at hplace

theorem hasPlace_of_firstWithin? {span : Span} {c : Char} {p : Position}
    (hp : o.firstWithin? span c = some p) : o.source.HasPlace p := by
  obtain ⟨entry, hentry, hp⟩ := List.mem_flatMap.mp (List.mem_of_find?_eq_some hp)
  exact hasPlace_of_mem_bytesOn (List.mem_of_mem_filter hentry) hp

/-! ## Lines -/

theorem mem_coveredLines_iff {ids : List ScopeId} {index : Nat} : index ∈ o.coveredLines ids ↔
    index < o.source.lines.length ∧ ∃ id ∈ ids, (o.get id).span.HasLine index := by
  simp only [coveredLines, List.mem_filter, List.mem_range, List.any_eq_true, decide_eq_true_iff]

theorem getElem?_of_mem_coveredLines {ids : List ScopeId} {index : Nat}
    (h : index ∈ o.coveredLines ids) : o.source.lines[index]? = some (o.source.line index) := by
  have hlt := (mem_coveredLines_iff.mp h).1
  rw [List.getElem?_eq_getElem hlt, Source.line_eq (List.getElem?_eq_getElem hlt)]

end ScopeLint.Outline
