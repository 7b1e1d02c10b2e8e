import ScopeLint.Proofs.Region.Delimited
import ScopeLint.Proofs.Source.Text

/-!
# Regions start and end between characters

No character stands across an end of a region: each end is next to a byte of ASCII, next to a
character that is not blank, or at an end of its line.
-/

namespace ScopeLint

variable {s : Source} {index : Nat} {line : Line} {r : Region}

/-! ## Ends on a line -/

theorem Source.clear_of_byteAt? {p : Position} {b : UInt8} (h : s.byteAt? p = some b)
    (hb : b.toNat < 0x80) (hline : s.lines[p.line]? = some line) :
    line.Clear p.col ∧ line.Clear (p.col + 1) := by
  rw [byteAt?_eq hline] at h
  exact Line.clear_of_byte h hb

theorem Code.clear_of_hasCodeAt {col : Nat} {original : Line}
    (hline : (Code.ofSource s).lines[index]? = some line) (hcode : line.HasCodeAt col)
    (horiginal : s.lines[index]? = some original) : original.Clear col := by
  obtain ⟨front, x, back, rfl, rfl, hx⟩ := hcode
  obtain ⟨front', back', hline', hsize⟩ := Inert.exists_of_blankLine hline hx
  obtain rfl := Option.some.inj (horiginal.symm.trans hline')
  rw [← hsize]
  exact Line.clear_of_append front' (x :: back')

theorem Code.clear_lastCol_trimEnd {col : Nat} {original : Line}
    (hline : (Code.ofSource s).lines[index]? = some line) (hcode : line.HasCodeAt col)
    (horiginal : s.lines[index]? = some original) :
    original.Clear (Line.lastCol (trimEnd line) + 1) := by
  obtain ⟨front, x, back, rfl, htrim, hx⟩ := hcode.exists_last
  obtain ⟨front', back', hline', hsize⟩ := Inert.exists_of_blankLine hline hx
  obtain rfl := Option.some.inj (horiginal.symm.trans hline')
  have hclear := Line.clear_of_append (front' ++ [x]) back'
  have hpos := Char.utf8Size_pos x
  rw [htrim, Line.lastCol, Line.size_append, ← hsize, ← Line.size_append,
    Nat.sub_add_cancel (by rw [Line.size_append, Line.size]; omega)]
  rwa [List.append_assoc] at hclear

/-! ## Comments -/

theorem Comment.clearIn {c : Comment} (hc : c ∈ (Inert.ofSource s).comments.toList) :
    c.span.ClearIn s where
  start _ hline :=
    (Source.clear_of_byteAt? (Inert.ofSource_comments hc).byteAt?_start (by decide) hline).1
  stop line hline := by
    rcases (Inert.ofSource_comments hc).stop_eq with hbyte | hlast
    · exact (Source.clear_of_byteAt? hbyte (by decide) hline).2
    · rw [hlast, Source.line_eq hline]
      exact line.clear_lastCol

/-! ## Macro definitions -/

namespace MacroDefinition

/-- A definition of one line ends with the last character in front of a comment, if not with the
first character of its directive. -/
theorem clear_lastColOn (inert : Inert) (index : Nat) {start : Nat} {line : Line}
    (hstart : line.Clear (start + 1)) :
    line.Clear (max (lastColOn inert index start line) start + 1) := by
  have hfront : ∀ text : Line, text <+: line → line.Clear (max text.lastCol start + 1) := by
    rintro text ⟨rest, rfl⟩
    cases text with
    | nil =>
      rw [Line.lastCol, Line.size, Nat.zero_sub, Nat.zero_max]
      exact hstart
    | cons c text =>
      have hpos := Char.utf8Size_pos c
      rcases Nat.le_total (Line.lastCol (c :: text)) start with hle | hle
      · rw [Nat.max_eq_right hle]
        exact hstart
      · rw [Nat.max_eq_left hle, Line.lastCol,
          Nat.sub_add_cancel (by rw [Line.size]; omega)]
        exact Line.clear_of_append _ _
  unfold lastColOn
  split
  · exact hfront line (List.prefix_refl _)
  · rename_i c _
    split
    · obtain ⟨blanks, hblanks, -⟩ := exists_trimEnd_append (line.slice 0 c.span.start.col)
      have htrim : trimEnd (line.slice 0 c.span.start.col) <+: line.slice 0 c.span.start.col :=
        ⟨blanks, hblanks.symm⟩
      exact hfront _ (htrim.trans (line.slice_zero_prefix _))
    · exact hfront line (List.prefix_refl _)

theorem clear_stop_of_mem_readLines {inert : Inert} {begun : Option Begun} {index : Nat}
    {lines : List Line} (hlines : s.lines.drop index = lines) {d : MacroDefinition}
    (hd : d ∈ readLines inert begun index lines) {line : Line}
    (hline : s.lines[d.span.stop.line]? = some line) : line.Clear (d.span.stop.col + 1) := by
  fun_induction readLines inert begun index lines with
  | case1 => cases hd
  | case2 _ _ _ _ _ _ ih | case4 _ _ _ _ ih | case5 _ _ _ _ _ _ ih =>
    exact ih (getElem?_of_drop_eq_cons hlines).2 hd
  | case3 b index last rest text hended ih =>
    obtain ⟨hlast, hrest⟩ := getElem?_of_drop_eq_cons hlines
    rcases List.mem_cons.mp hd with rfl | hd
    · obtain rfl := Option.some.inj (hlast.symm.trans hline)
      exact last.clear_lastCol
    · exact ih hrest hd
  | case6 index last rest col hcol hended ih =>
    obtain ⟨hlast, hrest⟩ := getElem?_of_drop_eq_cons hlines
    rcases List.mem_cons.mp hd with rfl | hd
    · obtain rfl := Option.some.inj (hlast.symm.trans hline)
      have hsign := (code_of_directive? hlast hcol).2
      exact clear_lastColOn inert index (Source.clear_of_byteAt? hsign (by decide) hlast).2
    · exact ih hrest hd

theorem clearIn {inert : Inert} {d : MacroDefinition} (hd : d ∈ ofSource s inert) :
    d.span.ClearIn s where
  start _ hline :=
    (Source.clear_of_byteAt? (code_start_of_mem_ofSource hd).2 (by decide) hline).1
  stop _ := clear_stop_of_mem_readLines rfl hd

end MacroDefinition

namespace Region

/-! ## The searches -/

/-- The region starts on that line, which has the number `index`, with a character that is not
blank. -/
def CodeFrom (r : Region) (index : Nat) (line : Line) : Prop :=
  r.span.start.line = index ∧ line.HasCodeAt r.span.start.col

section

variable {code : Code}

theorem codeFrom_of_namespaceOn (h : namespaceOn code index line = .ok (some r)) :
    r.CodeFrom index line := by
  obtain ⟨f, stop, hf, -, -, rfl⟩ := exists_of_namespaceOn h
  obtain ⟨col, hcode⟩ := Pattern.exists_hasCodeAt_namespace hf
  exact ⟨rfl, hcode.firstCodeCol⟩

theorem codeFrom_of_enumOn (h : enumOn code index line = .ok (some r)) :
    r.CodeFrom index line := by
  obtain ⟨f, stop, hf, -, -, rfl⟩ := exists_of_enumOn h
  obtain ⟨col, hcode⟩ := Pattern.exists_hasCodeAt_enum hf
  exact ⟨rfl, hcode.firstCodeCol⟩

theorem codeFrom_of_classOn (h : classOn code index line = .ok (some r)) :
    r.CodeFrom index line := by
  obtain ⟨f, start, stop, hf, rfl, -, -, rfl⟩ := exists_of_classOn h
  obtain ⟨keyword, -, hkeyword, -⟩ := Pattern.holds_class hf
  rw [hkeyword]
  exact ⟨rfl, Pattern.hasCodeAt_classKeyword hf hkeyword⟩

theorem codeFrom_of_functionOn (h : functionOn code index line = .ok (some r)) :
    r.CodeFrom index line := by
  obtain ⟨f, name, stop, hf, hname, -, -, rfl⟩ := exists_of_functionOn h
  exact ⟨rfl, (Pattern.hasCodeAt_functionName hf hname).firstCodeCol⟩

theorem codeFrom_of_variableOn (h : variableOn code index line = some r) :
    r.CodeFrom index line := by
  obtain ⟨f, name, hf, hname, rfl⟩ := exists_of_variableOn h
  exact ⟨rfl, (Pattern.hasCodeAt_variableName hf hname).firstCodeCol⟩

theorem codeFrom_of_conditionalOn (h : conditionalOn code index line = .ok (some r)) :
    r.CodeFrom index line := by
  obtain ⟨keyword, stop, hkeyword, -, rfl⟩ := exists_of_conditionalOn h
  obtain ⟨f, hf, hpart⟩ := List.mem_filterMap.mp (List.mem_of_find?_eq_some hkeyword)
  exact ⟨rfl, Pattern.hasCodeAt_conditionalWord hf hpart⟩

end

theorem CodeFrom.clear (h : r.CodeFrom index line)
    (hline : (Code.ofSource s).lines[index]? = some line) :
    ∀ original, s.lines[r.span.start.line]? = some original →
      original.Clear r.span.start.col := by
  obtain ⟨rfl, hcode⟩ := h
  exact fun _ horiginal => Code.clear_of_hasCodeAt hline hcode horiginal

theorem clear_start_of_mem_search {search : Code → Except Unbalanced (List Region)}
    (hsearch : search ∈ searches) {found : List Region}
    (h : search (Code.ofSource s) = .ok found) :
    ∀ r ∈ found, ∀ line, s.lines[r.span.start.line]? = some line →
      line.Clear r.span.start.col := by
  simp only [searches, List.mem_cons, List.not_mem_nil, or_false] at hsearch
  rcases hsearch with rfl | rfl | rfl | rfl | rfl | rfl
  · exact forall_mem_sweep h fun _ _ _ hline hr => (codeFrom_of_namespaceOn hr).clear hline
  · exact forall_mem_enums h fun _ _ _ hline hr => (codeFrom_of_enumOn hr).clear hline
  · exact forall_mem_sweep h fun _ _ _ hline hr => (codeFrom_of_classOn hr).clear hline
  · exact forall_mem_sweep h fun _ _ _ hline hr => (codeFrom_of_functionOn hr).clear hline
  · exact forall_mem_sweep h fun _ _ _ hline hr =>
      (codeFrom_of_variableOn (Except.ok.inj hr)).clear hline
  · exact forall_mem_sweep h fun _ _ _ hline hr => (codeFrom_of_conditionalOn hr).clear hline

theorem clear_stop_of_mem_search {search : Code → Except Unbalanced (List Region)}
    (hsearch : search ∈ searches) {found : List Region}
    (h : search (Code.ofSource s) = .ok found) :
    ∀ r ∈ found, ∀ line, s.lines[r.span.stop.line]? = some line →
      line.Clear (r.span.stop.col + 1) := by
  -- Braces and semicolons are characters of one byte.
  have hended : ∀ {closers}, (search, closers) ∈ endedSearches →
      closers.all (fun c => c.toUInt8.toNat < 0x80) = true → ∀ r ∈ found, ∀ line,
        s.lines[r.span.stop.line]? = some line → line.Clear (r.span.stop.col + 1) := by
    intro closers hclosers hascii r hr line hline
    obtain ⟨c, hc, hcode⟩ := ((delimited_of_mem_endedSearches hclosers h).2 r hr).stop_code
    have hbyte := of_decide_eq_true (List.all_eq_true.mp hascii c hc)
    exact (Source.clear_of_byteAt? hcode.2 hbyte hline).2
  simp only [searches, List.mem_cons, List.not_mem_nil, or_false] at hsearch
  rcases hsearch with rfl | rfl | rfl | rfl | rfl | rfl
  · exact @hended ['\x7d'] (by simp [endedSearches]) rfl
  · exact @hended ['\x7d'] (by simp [endedSearches]) rfl
  · exact @hended ['\x7d'] (by simp [endedSearches]) rfl
  · exact @hended ['\x7d', ';'] (by simp [endedSearches]) rfl
  · refine forall_mem_sweep h fun _ _ _ hline hr => ?_
    obtain ⟨f, name, hf, hname, rfl⟩ := exists_of_variableOn (Except.ok.inj hr)
    exact fun _ horiginal =>
      Code.clear_lastCol_trimEnd hline (Pattern.hasCodeAt_variableName hf hname) horiginal
  · exact @hended ['\x7d', ';'] (by simp [endedSearches]) rfl

theorem clearIn_of_mem_ofCode {regions : List Region}
    (h : ofCode (Code.ofSource s) = .ok regions) : ∀ r ∈ regions, r.span.ClearIn s := by
  intro r hr
  unfold ofCode at h
  obtain ⟨found, hfound, rfl⟩ := exists_of_map_eq_ok h
  rcases List.mem_append.mp hr with hr | hr
  · rcases List.mem_append.mp hr with hr | hr
    · obtain ⟨c, hc, rfl⟩ := List.mem_map.mp hr
      exact Comment.clearIn hc
    · obtain ⟨d, hd, rfl⟩ := List.mem_map.mp hr
      exact MacroDefinition.clearIn hd
  · obtain ⟨search, hsearch, structures, hstructures, hr⟩ := exists_of_mem_runSearches hfound hr
    exact ⟨clear_start_of_mem_search hsearch hstructures r hr,
      clear_stop_of_mem_search hsearch hstructures r hr⟩

end Region

end ScopeLint
