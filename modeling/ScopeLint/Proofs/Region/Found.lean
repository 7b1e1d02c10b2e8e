import ScopeLint.Region.OfCode

/-!
# What the searches find

A region that a search finds is taken apart into the match it stands for and the extent that was
read: one lemma for each search, and one for each way of going through the lines.
-/

namespace ScopeLint.Region

theorem exists_of_map_eq_ok {ε α β : Type} {f : α → β} {x : Except ε α} {b : β}
    (h : x.map f = .ok b) : ∃ a, x = .ok a ∧ f a = b := by
  cases x with
  | error e => cases h
  | ok a => exact ⟨a, rfl, Except.ok.inj h⟩

/-! ## Going through the lines -/

theorem exists_of_mem_sweep {search : Nat → Line → Except Unbalanced (Option Region)}
    {index : Nat} {lines : List Line} {found : List Region} {r : Region}
    (h : sweep search index lines = .ok found) (hr : r ∈ found) :
    ∃ i line, lines[i]? = some line ∧ search (index + i) line = .ok (some r) := by
  induction lines generalizing index found with
  | nil =>
    obtain rfl := Except.ok.inj h
    simp at hr
  | cons line rest ih =>
    have hrest : ∀ {found : List Region}, sweep search (index + 1) rest = .ok found → r ∈ found →
        ∃ i line', (line :: rest)[i]? = some line' ∧
          search (index + i) line' = .ok (some r) := by
      intro found h hr
      obtain ⟨i, line', hline', hsearch⟩ := ih h hr
      rw [Nat.add_right_comm] at hsearch
      exact ⟨i + 1, line', hline', hsearch⟩
    rw [sweep] at h
    split at h
    · simp at h
    · exact hrest h hr
    · rename_i r' hsearch
      obtain ⟨more, hmore, rfl⟩ := exists_of_map_eq_ok h
      rcases List.mem_cons.mp hr with rfl | hr
      · exact ⟨0, line, rfl, hsearch⟩
      · exact hrest hmore hr

theorem of_outsideMacros {code : Code} {search : Nat → Line → Except Unbalanced (Option Region)}
    {index : Nat} {line : Line} {r : Region}
    (h : outsideMacros code search index line = .ok (some r)) :
    search index line = .ok (some r) := by
  unfold outsideMacros at h
  split at h
  · simp at h
  · exact h

theorem forall_mem_sweep {code : Code} {search : Nat → Line → Except Unbalanced (Option Region)}
    {P : Region → Prop} {found : List Region}
    (h : sweep (outsideMacros code search) 0 code.lines = .ok found)
    (hP : ∀ index line r, code.lines[index]? = some line → search index line = .ok (some r) → P r) :
    ∀ r ∈ found, P r := by
  intro r hr
  obtain ⟨i, line, hline, hsearch⟩ := exists_of_mem_sweep h hr
  rw [Nat.zero_add] at hsearch
  exact hP i line r hline (of_outsideMacros hsearch)

theorem exists_of_mem_enumsFrom {code : Code} {resume index : Nat} {lines : List Line}
    {found : List Region} {r : Region} (h : enumsFrom code resume index lines = .ok found)
    (hr : r ∈ found) :
    ∃ i line, lines[i]? = some line ∧
      outsideMacros code (enumOn code) (index + i) line = .ok (some r) := by
  induction lines generalizing resume index found with
  | nil =>
    obtain rfl := Except.ok.inj h
    simp at hr
  | cons line rest ih =>
    have hrest : ∀ {resume found}, enumsFrom code resume (index + 1) rest = .ok found → r ∈ found →
        ∃ i line', (line :: rest)[i]? = some line' ∧
          outsideMacros code (enumOn code) (index + i) line' = .ok (some r) := by
      intro resume found h hr
      obtain ⟨i, line', hline', hsearch⟩ := ih h hr
      rw [Nat.add_right_comm] at hsearch
      exact ⟨i + 1, line', hline', hsearch⟩
    rw [enumsFrom] at h
    split at h
    · exact hrest h hr
    · split at h
      · simp at h
      · exact hrest h hr
      · rename_i r' hsearch
        obtain ⟨more, hmore, rfl⟩ := exists_of_map_eq_ok h
        rcases List.mem_cons.mp hr with rfl | hr
        · exact ⟨0, line, rfl, hsearch⟩
        · exact hrest hmore hr

theorem forall_mem_enums {code : Code} {P : Region → Prop} {found : List Region}
    (h : enums code = .ok found)
    (hP : ∀ index line r, code.lines[index]? = some line → enumOn code index line = .ok (some r) →
      P r) :
    ∀ r ∈ found, P r := by
  intro r hr
  obtain ⟨i, line, hline, hsearch⟩ := exists_of_mem_enumsFrom h hr
  rw [Nat.zero_add] at hsearch
  exact hP i line r hline (of_outsideMacros hsearch)

/-! ## On one line -/

section

variable {code : Code} {index : Nat} {line : Line} {r : Region}

theorem exists_of_braced? {kind : Kind} {name : Line} {start : Position}
    (h : braced? code kind name start = .ok (some r)) :
    ∃ stop, code.inert.covers start = false ∧ Extent.resolve code start .braces = .ok stop ∧
      r = ⟨kind, String.ofList name, ⟨start, stop⟩⟩ := by
  unfold braced? at h
  split at h
  · simp at h
  · rename_i hfree
    obtain ⟨stop, hstop, hr⟩ := exists_of_map_eq_ok h
    exact ⟨stop, by simpa using hfree, hstop, (Option.some.inj hr).symm⟩

theorem exists_of_namespaceOn (h : namespaceOn code index line = .ok (some r)) :
    ∃ f stop, Pattern.namespaceHead.matchLine line = some f ∧
      code.inert.covers ⟨index, line.firstCodeCol⟩ = false ∧
      Extent.resolve code ⟨index, line.firstCodeCol⟩ .braces = .ok stop ∧
      r = ⟨.namespaceBlock, String.ofList (f.textOf line .name),
        ⟨⟨index, line.firstCodeCol⟩, stop⟩⟩ := by
  unfold namespaceOn at h
  split at h
  · simp at h
  · rename_i f hf
    obtain ⟨stop, hfree, hstop, hr⟩ := exists_of_braced? h
    exact ⟨f, stop, hf, hfree, hstop, hr⟩

theorem exists_of_enumOn (h : enumOn code index line = .ok (some r)) :
    ∃ f stop, Pattern.enumHead.matchLine line = some f ∧
      code.inert.covers ⟨index, line.firstCodeCol⟩ = false ∧
      Extent.resolve code ⟨index, line.firstCodeCol⟩ .braces = .ok stop ∧
      r = ⟨.enumBlock, String.ofList (f.textOf line .name),
        ⟨⟨index, line.firstCodeCol⟩, stop⟩⟩ := by
  unfold enumOn at h
  split at h
  · simp at h
  · rename_i f hf
    obtain ⟨stop, hfree, hstop, hr⟩ := exists_of_braced? h
    exact ⟨f, stop, hf, hfree, hstop, hr⟩

theorem exists_of_classOn (h : classOn code index line = .ok (some r)) :
    ∃ f start stop, Pattern.classHead.matchLine line = some f ∧
      start = ((f.part? .keyword).map Capture.start).getD 0 ∧
      code.inert.covers ⟨index, start⟩ = false ∧
      Extent.resolve code ⟨index, start⟩ .braces = .ok stop ∧
      r = ⟨.classBlock, String.ofList (f.textOf line .name), ⟨⟨index, start⟩, stop⟩⟩ := by
  unfold classOn at h
  split at h
  · simp at h
  · rename_i f hf
    obtain ⟨stop, hfree, hstop, hr⟩ := exists_of_braced? h
    refine ⟨f, _, stop, hf, ?_, hfree, hstop, hr⟩
    cases f.part? .keyword <;> rfl

theorem exists_of_functionOn (h : functionOn code index line = .ok (some r)) :
    ∃ f name stop, Pattern.functionHead.matchLine line = some f ∧ f.part? .name = some name ∧
      code.inert.covers ⟨index, line.firstCodeCol⟩ = false ∧
      Extent.resolve code ⟨index, name.start⟩ .bracesOrStatement = .ok stop ∧
      r = ⟨.anyFunction, String.ofList (line.slice name.start name.stop),
        ⟨⟨index, line.firstCodeCol⟩, stop⟩⟩ := by
  unfold functionOn at h
  split at h
  · simp at h
  · rename_i name hname
    obtain ⟨f, hf, hpart⟩ := Option.bind_eq_some_iff.mp hname
    simp only at h
    split at h
    · simp at h
    · rename_i hfree
      rw [Bool.or_eq_true, not_or] at hfree
      obtain ⟨stop, hstop, hr⟩ := exists_of_map_eq_ok h
      exact ⟨f, name, stop, hf, hpart, Bool.eq_false_iff.mpr hfree.1, hstop,
        (Option.some.inj hr).symm⟩

theorem exists_of_variableOn (h : variableOn code index line = some r) :
    ∃ f name, Pattern.variableHead.matchLine line = some f ∧ f.part? .name = some name ∧
      r = ⟨.anyVariable, String.ofList (line.slice name.start name.stop),
        ⟨⟨index, line.firstCodeCol⟩, ⟨index, Line.lastCol (trimEnd line)⟩⟩⟩ := by
  unfold variableOn at h
  split at h
  · simp at h
  · rename_i name hname
    obtain ⟨f, hf, hpart⟩ := Option.bind_eq_some_iff.mp hname
    simp only at h
    split at h
    · simp at h
    · exact ⟨f, name, hf, hpart, (Option.some.inj h).symm⟩

theorem exists_of_conditionalOn (h : conditionalOn code index line = .ok (some r)) :
    ∃ keyword stop, conditionalWord? code index line = some keyword ∧
      conditionalEnd code index line keyword = .ok (some stop) ∧
      r = ⟨.conditional, String.ofList (conditionalName line keyword),
        ⟨⟨index, keyword.start⟩, stop⟩⟩ := by
  unfold conditionalOn at h
  split at h
  · simp at h
  · rename_i keyword hkeyword
    obtain ⟨stop?, hstop, hr⟩ := exists_of_map_eq_ok h
    obtain ⟨stop, rfl, rfl⟩ := Option.map_eq_some_iff.mp hr
    exact ⟨keyword, stop, hkeyword, hstop, rfl⟩

theorem conditionalEnd_cases {keyword : Capture} {stop : Position}
    (h : conditionalEnd code index line keyword = .ok (some stop)) :
    (line.slice keyword.start keyword.stop = "for".toList ∧ ∃ closing,
        Extent.resolve code ⟨index, keyword.start⟩ .parentheses = .ok closing ∧
        Extent.resolve code (Extent.behind closing) .bracesOrStatement = .ok stop) ∨
      (line.slice keyword.start keyword.stop = "do".toList ∧
        loopEnd code ⟨index, keyword.stop⟩ = .ok stop) ∨
      (line.slice keyword.start keyword.stop ≠ "for".toList ∧
        Extent.resolve code ⟨index, keyword.start⟩ .bracesOrStatement = .ok stop) := by
  have hmap : ∀ {x : Except Unbalanced Position}, x.map some = .ok (some stop) → x = .ok stop := by
    intro x hx
    obtain ⟨q, rfl, hq⟩ := exists_of_map_eq_ok hx
    rw [Option.some.inj hq]
  unfold conditionalEnd at h
  simp only at h
  split at h
  · simp at h
  · split at h
    · rename_i hword
      split at h
      · simp at h
      · rename_i closing hclosing
        exact .inl ⟨hword, closing, hclosing, hmap h⟩
    · rename_i hword
      split at h
      · rename_i hdo
        exact .inr (.inl ⟨hdo, hmap h⟩)
      · exact .inr (.inr ⟨hword, hmap h⟩)

end

/-! ## All searches -/

theorem exists_of_mem_runSearches {code : Code}
    {searches : List (Code → Except Unbalanced (List Region))} {found : List Region} {r : Region}
    (h : runSearches code searches = .ok found) (hr : r ∈ found) :
    ∃ search ∈ searches, ∃ structures, search code = .ok structures ∧ r ∈ structures := by
  induction searches generalizing found with
  | nil =>
    obtain rfl := Except.ok.inj h
    simp at hr
  | cons search rest ih =>
    rw [runSearches] at h
    split at h
    · simp at h
    · rename_i front hfront
      obtain ⟨back, hback, rfl⟩ := exists_of_map_eq_ok h
      rcases List.mem_append.mp hr with hr | hr
      · exact ⟨search, List.mem_cons_self, front, hfront, hr⟩
      · obtain ⟨other, hother, found, hfound, hr⟩ := ih hback hr
        exact ⟨other, List.mem_cons_of_mem _ hother, found, hfound, hr⟩

end ScopeLint.Region
