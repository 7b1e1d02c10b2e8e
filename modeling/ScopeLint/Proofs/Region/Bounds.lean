import ScopeLint.Proofs.Extent
import ScopeLint.Proofs.MacroDefinition
import ScopeLint.Proofs.Region.Found

/-!
# Regions lie in their unit

Each region ends where it starts or behind, and no region goes on behind its unit: one lemma for
each search, put together for the regions of a whole unit.
-/

namespace ScopeLint.Region

variable {s : Source}

/-! ## Braces, functions and variables -/

theorem fitsIn_of_namespaceOn {index : Nat} {line : Line} {r : Region}
    (h : namespaceOn (Code.ofSource s) index line = .ok (some r)) : r.span.FitsIn s := by
  obtain ⟨f, stop, -, -, hstop, rfl⟩ := exists_of_namespaceOn h
  exact Extent.fitsIn_of_resolve hstop

theorem fitsIn_of_classOn {index : Nat} {line : Line} {r : Region}
    (h : classOn (Code.ofSource s) index line = .ok (some r)) : r.span.FitsIn s := by
  obtain ⟨f, start, stop, -, -, -, hstop, rfl⟩ := exists_of_classOn h
  exact Extent.fitsIn_of_resolve hstop

theorem fitsIn_of_enumOn {index : Nat} {line : Line} {r : Region}
    (h : enumOn (Code.ofSource s) index line = .ok (some r)) : r.span.FitsIn s := by
  obtain ⟨f, stop, -, -, hstop, rfl⟩ := exists_of_enumOn h
  exact Extent.fitsIn_of_resolve hstop

theorem fitsIn_of_functionOn {index : Nat} {line : Line} {r : Region}
    (h : functionOn (Code.ofSource s) index line = .ok (some r)) : r.span.FitsIn s := by
  obtain ⟨f, name, stop, hf, hpart, -, hstop, rfl⟩ := exists_of_functionOn h
  have hcode := Pattern.hasCodeAt_functionName hf hpart
  exact (Extent.fitsIn_of_resolve hstop).widen (.inr ⟨rfl, hcode.firstCodeCol_le⟩)

theorem fitsIn_of_variableOn {index : Nat} {line : Line} {r : Region}
    (hline : (Code.ofSource s).lines[index]? = some line)
    (h : variableOn (Code.ofSource s) index line = some r) : r.span.FitsIn s := by
  obtain ⟨f, name, hf, hpart, rfl⟩ := exists_of_variableOn h
  have hcode := Pattern.hasCodeAt_variableName hf hpart
  refine Span.fitsIn_of_lt ?_ ?_ ?_
  · exact .inr ⟨rfl, Nat.le_trans hcode.firstCodeCol_le hcode.le_lastCol_trimEnd⟩
  · rw [← Code.length_lines]
    exact (List.getElem?_eq_some_iff.mp hline).1
  · -- The blanked line is as long as the line of the unit.
    have hsize := Inert.size_blankLine hline
    have htrim := Line.lastCol_trimEnd_le line
    simp only
    rw [Line.lastCol, Line.lastCol] at *
    omega

/-! ## Conditionals -/

theorem exists_of_readLoopWords {code : Code} {index offset : Nat} {rest : Line} {nested : Nat}
    {words : List Capture} {p : Position}
    (h : readLoopWords code index offset rest nested words = .closed p) :
    ∃ col, offset ≤ col ∧ Extent.loopStatement? code ⟨index, col⟩ = some p := by
  induction words generalizing nested with
  | nil => cases h
  | cons word more ih =>
    rw [readLoopWords] at h
    split at h
    · exact ih h
    · split at h
      · exact ih h
      · split at h
        · exact ih h
        · rename_i statement hstatement
          split at h
          · obtain rfl := LoopStep.closed.inj h
            exact ⟨offset + word.stop, Nat.le_add_right _ _, hstatement⟩
          · exact ih h

theorem exists_of_loopEndFrom {code : Code} {nested index offset : Nat} {lines : List Line}
    {p : Position} (h : loopEndFrom code nested index offset lines = some p) :
    ∃ afterWord, (⟨index, offset⟩ : Position) ≤ afterWord ∧
      Extent.loopStatement? code afterWord = some p := by
  induction lines generalizing nested index offset with
  | nil => cases h
  | cons line rest ih =>
    have hrest : ∀ {nested}, loopEndFrom code nested (index + 1) 0 rest = some p →
        ∃ afterWord, (⟨index, offset⟩ : Position) ≤ afterWord ∧
          Extent.loopStatement? code afterWord = some p := by
      intro nested h
      obtain ⟨afterWord, hle, hstatement⟩ := ih h
      exact ⟨afterWord, Position.le_trans (.inl (Nat.lt_succ_self index)) hle, hstatement⟩
    rw [loopEndFrom] at h
    split at h
    · exact hrest h
    · simp only at h
      split at h
      · rename_i statement hread
        obtain rfl := Option.some.inj h
        obtain ⟨col, hcol, hstatement⟩ := exists_of_readLoopWords hread
        exact ⟨⟨index, col⟩, .inr ⟨rfl, hcol⟩, hstatement⟩
      · exact hrest h

theorem exists_of_loopEnd {code : Code} {afterDo p : Position} (h : loopEnd code afterDo = .ok p) :
    ∃ afterWord, afterDo ≤ afterWord ∧ Extent.loopStatement? code afterWord = some p := by
  unfold loopEnd at h
  split at h
  · rename_i q hq
    obtain rfl := Except.ok.inj h
    exact exists_of_loopEndFrom hq
  · simp at h

theorem exists_of_conditionalEnd {index : Nat} {line : Line} {keyword : Capture} {p : Position}
    (h : conditionalEnd (Code.ofSource s) index line keyword = .ok (some p)) :
    ∃ q : Position, ⟨index, keyword.start⟩ ≤ q ∧
      (Extent.resolve (Code.ofSource s) q .bracesOrStatement = .ok p ∨
        Extent.loopStatement? (Code.ofSource s) q = some p) := by
  rcases conditionalEnd_cases h with ⟨-, closing, hclosing, hbody⟩ | ⟨hword, hend⟩ | ⟨-, hbody⟩
  · have hclause := (Extent.fitsIn_of_resolve hclosing).1
    exact ⟨_, Position.le_trans hclause (Extent.le_behind closing), .inl hbody⟩
  · have hd : 'd' ∈ line.slice keyword.start keyword.stop := by rw [hword]; decide
    have hlt := Line.lt_of_mem_sliceFrom rfl hd
    obtain ⟨afterWord, hle, hstatement⟩ := exists_of_loopEnd hend
    have hstart : (⟨index, keyword.start⟩ : Position) ≤ ⟨index, keyword.stop⟩ :=
      .inr ⟨rfl, Nat.le_of_lt hlt⟩
    exact ⟨afterWord, Position.le_trans hstart hle, .inr hstatement⟩
  · exact ⟨_, Position.le_refl _, .inl hbody⟩

theorem fitsIn_of_conditionalEnd {index : Nat} {line : Line} {keyword : Capture} {p : Position}
    (h : conditionalEnd (Code.ofSource s) index line keyword = .ok (some p)) :
    Span.FitsIn ⟨⟨index, keyword.start⟩, p⟩ s := by
  obtain ⟨q, hle, hbody | hstatement⟩ := exists_of_conditionalEnd h
  · exact (Extent.fitsIn_of_resolve hbody).widen hle
  · exact (Extent.fitsIn_of_loopStatement? hstatement).widen hle

theorem fitsIn_of_conditionalOn {index : Nat} {line : Line} {r : Region}
    (h : conditionalOn (Code.ofSource s) index line = .ok (some r)) : r.span.FitsIn s := by
  obtain ⟨keyword, stop, -, hstop, rfl⟩ := exists_of_conditionalOn h
  exact fitsIn_of_conditionalEnd hstop

/-! ## All regions -/

theorem fitsIn_of_mem_search {search : Code → Except Unbalanced (List Region)}
    (hsearch : search ∈ searches) {found : List Region}
    (h : search (Code.ofSource s) = .ok found) : ∀ r ∈ found, r.span.FitsIn s := by
  simp only [searches, List.mem_cons, List.not_mem_nil, or_false] at hsearch
  rcases hsearch with rfl | rfl | rfl | rfl | rfl | rfl
  · exact forall_mem_sweep h fun _ _ _ _ => fitsIn_of_namespaceOn
  · exact forall_mem_enums h fun _ _ _ _ => fitsIn_of_enumOn
  · exact forall_mem_sweep h fun _ _ _ _ => fitsIn_of_classOn
  · exact forall_mem_sweep h fun _ _ _ _ => fitsIn_of_functionOn
  · exact forall_mem_sweep h fun _ _ _ hline hr => fitsIn_of_variableOn hline (Except.ok.inj hr)
  · exact forall_mem_sweep h fun _ _ _ _ => fitsIn_of_conditionalOn

theorem fitsIn_of_mem_comments {c : Comment} (hc : c ∈ (Inert.ofSource s).comments.toList) :
    c.span.FitsIn s := by
  have hcomment := Inert.ofSource_comments hc
  have hle := (Inert.comments_inOrder s).1 _ (List.mem_map_of_mem hc)
  obtain ⟨hstart, hrest⟩ := hcomment
  split at hrest
  · have hline := Source.line_lt_of_byteAt? hstart
    refine Span.fitsIn_of_lt hle ?_ ?_
    · rw [hrest.2]
      exact hline
    · rw [hrest.2]
      exact Nat.le_refl _
  · rcases hrest.2 with ⟨p, hp, -, hstop⟩ | ⟨-, hstop⟩
    · exact Span.fitsIn_of_byteAt? hle (hstop ▸ hp.2.2)
    · exact ⟨hle, hstop ▸ Position.le_refl _, by rw [hstop]; exact Nat.le_refl _⟩

theorem fitsIn_of_mem_ofCode {regions : List Region}
    (h : ofCode (Code.ofSource s) = .ok regions) : ∀ r ∈ regions, r.span.FitsIn s := by
  intro r hr
  unfold ofCode at h
  obtain ⟨found, hfound, rfl⟩ := exists_of_map_eq_ok h
  rcases List.mem_append.mp hr with hr | hr
  · rcases List.mem_append.mp hr with hr | hr
    · obtain ⟨c, hc, rfl⟩ := List.mem_map.mp hr
      exact fitsIn_of_mem_comments hc
    · obtain ⟨d, hd, rfl⟩ := List.mem_map.mp hr
      exact MacroDefinition.fitsIn_of_mem_ofSource hd
  · obtain ⟨search, hsearch, structures, hstructures, hr⟩ := exists_of_mem_runSearches hfound hr
    exact fitsIn_of_mem_search hsearch hstructures r hr

end ScopeLint.Region
