import ScopeLint.Proofs.MacroDefinition.Order
import ScopeLint.Proofs.Region.Bounds

/-!
# Regions start in their unit

Each region starts on the line it is found on, at one of its columns: one lemma for each search,
put together for the regions of a whole unit.
-/

namespace ScopeLint.Region

variable {s : Source} {code : Code} {index : Nat} {line : Line} {r : Region}

def StartsOn (r : Region) (index : Nat) (line : Line) : Prop :=
  r.span.start.line = index ∧ r.span.start.col ≤ line.size

theorem StartsOn.hasPlace (h : r.StartsOn index line)
    (hline : (Code.ofSource s).lines[index]? = some line) : s.HasPlace r.span.start := by
  obtain ⟨rfl, hcol⟩ := h
  have hlt := (List.getElem?_eq_some_iff.mp hline).1
  rw [Code.length_lines] at hlt
  refine ⟨Nat.lt_of_lt_of_le hlt (Nat.le_max_right _ _), ?_⟩
  rwa [Inert.size_blankLine hline] at hcol

/-! ## The searches -/

theorem startsOn_of_namespaceOn (h : namespaceOn code index line = .ok (some r)) :
    r.StartsOn index line := by
  obtain ⟨f, stop, -, -, -, rfl⟩ := exists_of_namespaceOn h
  exact ⟨rfl, line.firstCodeCol_le⟩

theorem startsOn_of_enumOn (h : enumOn code index line = .ok (some r)) :
    r.StartsOn index line := by
  obtain ⟨f, stop, -, -, -, rfl⟩ := exists_of_enumOn h
  exact ⟨rfl, line.firstCodeCol_le⟩

theorem startsOn_of_classOn (h : classOn code index line = .ok (some r)) :
    r.StartsOn index line := by
  obtain ⟨f, start, stop, hf, rfl, -, -, rfl⟩ := exists_of_classOn h
  refine ⟨rfl, ?_⟩
  cases hkeyword : f.part? .keyword with
  | none => exact Nat.zero_le _
  | some keyword => exact Pattern.part_le_of_matchLine hf hkeyword

theorem startsOn_of_functionOn (h : functionOn code index line = .ok (some r)) :
    r.StartsOn index line := by
  obtain ⟨f, name, stop, -, -, -, -, rfl⟩ := exists_of_functionOn h
  exact ⟨rfl, line.firstCodeCol_le⟩

theorem startsOn_of_variableOn (h : variableOn code index line = some r) :
    r.StartsOn index line := by
  obtain ⟨f, name, -, -, rfl⟩ := exists_of_variableOn h
  exact ⟨rfl, line.firstCodeCol_le⟩

theorem startsOn_of_conditionalOn (h : conditionalOn code index line = .ok (some r)) :
    r.StartsOn index line := by
  obtain ⟨keyword, stop, hkeyword, -, rfl⟩ := exists_of_conditionalOn h
  obtain ⟨f, hf, hpart⟩ := List.mem_filterMap.mp (List.mem_of_find?_eq_some hkeyword)
  exact ⟨rfl, Pattern.part_le_of_mem_findAll hf hpart⟩

/-! ## All regions -/

theorem hasPlace_of_mem_search {search : Code → Except Unbalanced (List Region)}
    (hsearch : search ∈ searches) {found : List Region}
    (h : search (Code.ofSource s) = .ok found) : ∀ r ∈ found, s.HasPlace r.span.start := by
  simp only [searches, List.mem_cons, List.not_mem_nil, or_false] at hsearch
  rcases hsearch with rfl | rfl | rfl | rfl | rfl | rfl
  · exact forall_mem_sweep h fun _ _ _ hline hr => (startsOn_of_namespaceOn hr).hasPlace hline
  · exact forall_mem_enums h fun _ _ _ hline hr => (startsOn_of_enumOn hr).hasPlace hline
  · exact forall_mem_sweep h fun _ _ _ hline hr => (startsOn_of_classOn hr).hasPlace hline
  · exact forall_mem_sweep h fun _ _ _ hline hr => (startsOn_of_functionOn hr).hasPlace hline
  · exact forall_mem_sweep h fun _ _ _ hline hr =>
      (startsOn_of_variableOn (Except.ok.inj hr)).hasPlace hline
  · exact forall_mem_sweep h fun _ _ _ hline hr => (startsOn_of_conditionalOn hr).hasPlace hline

theorem hasPlace_of_mem_ofCode {regions : List Region}
    (h : ofCode (Code.ofSource s) = .ok regions) : ∀ r ∈ regions, s.HasPlace r.span.start := by
  intro r hr
  unfold ofCode at h
  obtain ⟨found, hfound, rfl⟩ := exists_of_map_eq_ok h
  rcases List.mem_append.mp hr with hr | hr
  · rcases List.mem_append.mp hr with hr | hr
    · obtain ⟨c, hc, rfl⟩ := List.mem_map.mp hr
      exact Source.hasPlace_of_byteAt? (Inert.ofSource_comments hc).byteAt?_start
    · obtain ⟨d, hd, rfl⟩ := List.mem_map.mp hr
      exact Source.hasPlace_of_byteAt? (MacroDefinition.code_start_of_mem_ofSource hd).2
  · obtain ⟨search, hsearch, structures, hstructures, hr⟩ := exists_of_mem_runSearches hfound hr
    exact hasPlace_of_mem_search hsearch hstructures r hr

end ScopeLint.Region
