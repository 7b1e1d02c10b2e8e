import ScopeLint.Outline.Admission
import ScopeLint.Proofs.Inert.Blanking
import ScopeLint.Proofs.MacroDefinition.Order
import ScopeLint.Proofs.Region.Found
import ScopeLint.Proofs.Text.Closed

/-!
# No comment and no macro definition is turned down

Their text has a slash or a number sign, which no reserved word has. Comments do not overlap, a
definition does not start in one, and neither is a function or a variable. So they all become scopes,
in the order of the text.
-/

namespace ScopeLint

/-! ## The text of a comment -/

theorem Line.mem_slice {front back : Line} {c : Char} {start stop : Nat}
    (hstart : start ≤ size front) (hstop : size front < stop) :
    c ∈ slice (front ++ c :: back) start stop := by
  have hpos := Char.utf8Size_pos c
  rw [slice, sliceFrom_append, sliceFrom, if_pos (by omega)]
  simp

theorem mem_intercalate {α : Type} {sep part : List α} {parts : List (List α)} {x : α}
    (hpart : part ∈ parts) (hx : x ∈ part) : x ∈ List.intercalate sep parts := by
  induction parts with
  | nil => cases hpart
  | cons first rest ih =>
    cases rest with
    | nil => simp_all
    | cons second rest =>
      rw [List.intercalate_cons_cons]
      rcases List.mem_cons.mp hpart with rfl | hpart
      · simp [hx]
      · simp [ih hpart]

theorem Source.mem_textOf {s : Source} {span : Span} {b : UInt8} {c : Char}
    (hspan : span.start ≤ span.stop) (hb : b.toNat < 0x80) (hc : c.toNat = b.toNat)
    (h : s.byteAt? span.start = some b) : c ∈ s.textOf span := by
  unfold byteAt? at h
  obtain ⟨line, hline, h⟩ := Option.bind_eq_some_iff.mp h
  obtain ⟨front, d, back, rfl, hsize, hd⟩ := Line.exists_char_of_byte h hb
  obtain rfl : d = c := Char.toNat_inj.mp (hd.trans hc.symm)
  have hpos := Char.utf8Size_pos d
  rw [Position.le_def] at hspan
  have hpiece : pieceOf span.start span.behind span.start.line (front ++ d :: back) ∈
      s.linesOf span := by
    unfold linesOf pieces
    refine List.mem_filterMap.mpr ⟨(_, span.start.line), List.mem_zipIdx_iff_getElem?.mpr hline, ?_⟩
    exact if_pos ⟨Nat.le_refl _, by rw [Span.behind_line]; omega⟩
  have hmem : d ∈ pieceOf span.start span.behind span.start.line (front ++ d :: back) := by
    unfold pieceOf
    apply Line.mem_slice
    · simp [hsize]
    · have hbehindLine := span.behind_line
      have hbehindCol := span.behind_col
      split
      · omega
      · simp [Line.size]
        omega
  exact mem_intercalate hpiece hmem

namespace Region

/-! ## Names -/

theorem lower_of_mem_reservedWords {w : String} (hw : w ∈ Pattern.reservedWords) {c : Char}
    (hc : c ∈ w.toList) : c = ' ' ∨ c.isLower = true := by
  have hall : (Pattern.reservedWords.all fun w =>
      w.toList.all fun c => c == ' ' || c.isLower) = true := by decide
  simpa using List.all_eq_true.mp (List.all_eq_true.mp hall w hw) c hc

theorem hasFreeName_of_mem {r : Region} {c : Char} (hmem : c ∈ r.name.toList) (hblank : c ≠ ' ')
    (hlower : c.isLower = false) : r.hasFreeName = true := by
  have hfree : r.name ∉ Pattern.reservedWords := by
    intro hreserved
    have hc := lower_of_mem_reservedWords hreserved hmem
    simp [hblank, hlower] at hc
  simp [hasFreeName, hfree]

/-! ## Structure -/

def IsStructure (r : Region) : Prop :=
  r.kind ∈ [.namespaceBlock, .enumBlock, .classBlock, .anyFunction, .anyVariable, .conditional]

theorem isStructure_of_mem_search {code : Code} {search : Code → Except Unbalanced (List Region)}
    (hsearch : search ∈ searches) {found : List Region} (h : search code = .ok found) :
    ∀ r ∈ found, r.IsStructure := by
  simp only [searches, List.mem_cons, List.not_mem_nil, or_false] at hsearch
  rcases hsearch with rfl | rfl | rfl | rfl | rfl | rfl
  · apply forall_mem_sweep (P := IsStructure) h
    intro index line r _ hr
    obtain ⟨f, stop, -, -, -, rfl⟩ := exists_of_namespaceOn hr
    simp [IsStructure]
  · apply forall_mem_enums (P := IsStructure) h
    intro index line r _ hr
    obtain ⟨f, stop, -, -, -, rfl⟩ := exists_of_enumOn hr
    simp [IsStructure]
  · apply forall_mem_sweep (P := IsStructure) h
    intro index line r _ hr
    obtain ⟨f, start, stop, -, -, -, -, rfl⟩ := exists_of_classOn hr
    simp [IsStructure]
  · apply forall_mem_sweep (P := IsStructure) h
    intro index line r _ hr
    obtain ⟨f, name, stop, -, -, -, -, rfl⟩ := exists_of_functionOn hr
    simp [IsStructure]
  · apply forall_mem_sweep (P := IsStructure) h
    intro index line r _ hr
    obtain ⟨f, name, -, -, rfl⟩ := exists_of_variableOn (Except.ok.inj hr)
    simp [IsStructure]
  · apply forall_mem_sweep (P := IsStructure) h
    intro index line r _ hr
    obtain ⟨keyword, stop, -, -, rfl⟩ := exists_of_conditionalOn hr
    simp [IsStructure]

theorem IsStructure.isOf_eq_false {r : Region} (h : r.IsStructure) :
    r.kind.isOf .comments = false ∧ r.kind.isOf .globalDefines = false := by
  unfold IsStructure at h
  simp only [List.mem_cons, List.not_mem_nil, or_false] at h
  rcases h with h | h | h | h | h | h <;> rw [h] <;> decide

theorem isOf_comments (style : CommentStyle) :
    style.kind.isOf .comments = true ∧ style.kind.isOf .globalDefines = false := by
  cases style <;> decide

/-! ## Regions of a unit -/

variable {s : Source} {regions : List Region}

theorem exists_of_ofCode (h : ofCode (Code.ofSource s) = .ok regions) :
    ∃ found, (∀ r ∈ found, r.IsStructure) ∧
      regions = (Inert.ofSource s).comments.toList.map (ofComment s) ++
        (MacroDefinition.ofSource s (Inert.ofSource s)).map ofMacro ++ found := by
  unfold ofCode at h
  obtain ⟨found, hfound, rfl⟩ := exists_of_map_eq_ok h
  refine ⟨found, ?_, rfl⟩
  intro r hr
  obtain ⟨search, hsearch, structures, hstructures, hr⟩ := exists_of_mem_runSearches hfound hr
  exact isStructure_of_mem_search hsearch hstructures r hr

theorem filter_comments_ofCode (h : ofCode (Code.ofSource s) = .ok regions) :
    regions.filter (·.kind.isOf .comments) =
      (Inert.ofSource s).comments.toList.map (ofComment s) := by
  obtain ⟨found, hfound, rfl⟩ := exists_of_ofCode h
  rw [List.filter_append, List.filter_append, List.filter_eq_self.mpr,
    List.filter_eq_nil_iff.mpr, List.filter_eq_nil_iff.mpr, List.append_nil, List.append_nil]
  · intro r hr
    simp [(hfound r hr).isOf_eq_false]
  · intro r hr
    obtain ⟨d, -, rfl⟩ := List.mem_map.mp hr
    exact (by decide : ¬Kind.globalDefine.isOf .comments = true)
  · intro r hr
    obtain ⟨c, -, rfl⟩ := List.mem_map.mp hr
    exact (isOf_comments c.style).1

theorem filter_defines_ofCode (h : ofCode (Code.ofSource s) = .ok regions) :
    regions.filter (·.kind.isOf .globalDefines) =
      (MacroDefinition.ofSource s (Inert.ofSource s)).map ofMacro := by
  obtain ⟨found, hfound, rfl⟩ := exists_of_ofCode h
  rw [List.filter_append, List.filter_append, List.filter_eq_nil_iff.mpr,
    List.filter_eq_self.mpr, List.filter_eq_nil_iff.mpr, List.nil_append, List.append_nil]
  · intro r hr
    simp [(hfound r hr).isOf_eq_false]
  · intro r hr
    obtain ⟨d, -, rfl⟩ := List.mem_map.mp hr
    exact (by decide : Kind.globalDefine.isOf .globalDefines = true)
  · intro r hr
    obtain ⟨c, -, rfl⟩ := List.mem_map.mp hr
    simp [ofComment, isOf_comments]

theorem exists_ofComment_eq (h : ofCode (Code.ofSource s) = .ok regions) {r : Region}
    (hr : r ∈ regions) (hkind : r.kind.isOf .comments = true) :
    ∃ c ∈ (Inert.ofSource s).comments.toList, ofComment s c = r := by
  rw [← List.mem_map, ← filter_comments_ofCode h]
  exact List.mem_filter.mpr ⟨hr, hkind⟩

theorem exists_ofMacro_eq (h : ofCode (Code.ofSource s) = .ok regions) {r : Region}
    (hr : r ∈ regions) (hkind : r.kind.isOf .globalDefines = true) :
    ∃ d ∈ MacroDefinition.ofSource s (Inert.ofSource s), ofMacro d = r := by
  rw [← List.mem_map, ← filter_defines_ofCode h]
  exact List.mem_filter.mpr ⟨hr, hkind⟩

/-! ## Admission -/

/-- What no filter of the admission can be about. -/
structure Unfiltered (regions : List Region) (r : Region) : Prop where
  hasFreeName : r.hasFreeName = true
  not_inside : ∀ c ∈ regions, c.isComment = true → ¬r.span.StrictlyWithin c.span
  not_function : r.kind ≠ .anyFunction
  not_variable : r.kind ≠ .anyVariable

/-- Regions that no filter can be about are all admitted, in the same order. -/
theorem filter_admitted {p : Region → Bool}
    (h : ∀ r ∈ regions, p r = true → Unfiltered regions r) :
    (admitted s regions).filter p = regions.filter p := by
  unfold admitted
  simp only [List.filter_filter]
  apply List.filter_congr
  intro r hr
  cases hp : p r with
  | false => simp
  | true =>
    obtain ⟨hname, hinside, hfunction, hvariable⟩ := h r hr hp
    have hcomments : r.isInside (regions.filter fun r => isComment r && r.hasFreeName) = false := by
      simp only [isInside, List.any_eq_false, List.mem_filter, Bool.and_eq_true, decide_eq_true_eq]
      rintro c ⟨hc, hcomment, -⟩
      exact hinside c hc hcomment
    simp [hname, hcomments, hfunction, hvariable, isPrototype]

theorem unfiltered_ofComment (h : ofCode (Code.ofSource s) = .ok regions) {c : Comment}
    (hc : c ∈ (Inert.ofSource s).comments.toList) : Unfiltered regions (ofComment s c) where
  hasFreeName := by
    have hstart := (Inert.ofSource_comments hc).byteAt?_start
    have hspan := (Inert.comments_inOrder s).1 c.span (List.mem_map_of_mem hc)
    have hslash := Source.mem_textOf (c := '/') hspan (by decide) (by decide) hstart
    exact hasFreeName_of_mem (by simpa [ofComment] using hslash) (by decide) (by decide)
  not_inside := by
    intro r hr hcomment hwithin
    obtain ⟨d, hd, rfl⟩ := exists_ofComment_eq h hr hcomment
    -- The start of a comment within another would be in both.
    have hne : c ≠ d := by
      rintro rfl
      exact hwithin.1 rfl
    have happart := Inert.apart_of_ne (Inert.mem_comments.mp hc) (Inert.mem_comments.mp hd)
      (by simpa using hne)
    have hspan := (Inert.comments_inOrder s).1 c.span (List.mem_map_of_mem hc)
    exact happart c.span.start
      ⟨⟨Position.le_refl _, hspan⟩, hwithin.2.1, Position.le_trans hspan hwithin.2.2⟩
  not_function := by
    unfold ofComment
    cases c.style <;> simp [CommentStyle.kind]
  not_variable := by
    unfold ofComment
    cases c.style <;> simp [CommentStyle.kind]

theorem unfiltered_ofMacro (h : ofCode (Code.ofSource s) = .ok regions) {d : MacroDefinition}
    (hd : d ∈ MacroDefinition.ofSource s (Inert.ofSource s)) : Unfiltered regions (ofMacro d) where
  hasFreeName := by
    have hsign := MacroDefinition.mem_text_of_mem_readLines (by simp) hd
    exact hasFreeName_of_mem hsign (by decide) (by decide)
  not_inside := by
    intro r hr hcomment hwithin
    obtain ⟨c, hc, rfl⟩ := exists_ofComment_eq h hr hcomment
    have hspan := (MacroDefinition.fitsIn_of_mem_ofSource hd).1
    have hinside : (Inert.ofSource s).inComment d.span.start = true :=
      Inert.inComment_iff.mpr ⟨c, hc, hwithin.2.1, Position.le_trans hspan hwithin.2.2⟩
    have hfree := (MacroDefinition.code_start_of_mem_ofSource hd).1
    simp [Inert.covers, hinside] at hfree
  not_function := by simp [ofMacro]
  not_variable := by simp [ofMacro]

theorem filter_comments_admitted (h : ofCode (Code.ofSource s) = .ok regions) :
    (admitted s regions).filter (·.kind.isOf .comments) =
      (Inert.ofSource s).comments.toList.map (ofComment s) := by
  rw [← filter_comments_ofCode h]
  apply filter_admitted
  intro r hr hkind
  obtain ⟨c, hc, rfl⟩ := exists_ofComment_eq h hr hkind
  exact unfiltered_ofComment h hc

theorem filter_defines_admitted (h : ofCode (Code.ofSource s) = .ok regions) :
    (admitted s regions).filter (·.kind.isOf .globalDefines) =
      (MacroDefinition.ofSource s (Inert.ofSource s)).map ofMacro := by
  rw [← filter_defines_ofCode h]
  apply filter_admitted
  intro r hr hkind
  obtain ⟨d, hd, rfl⟩ := exists_ofMacro_eq h hr hkind
  exact unfiltered_ofMacro h hd

end Region

end ScopeLint
