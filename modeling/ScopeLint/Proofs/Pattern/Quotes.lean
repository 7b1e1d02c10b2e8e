import ScopeLint.Pattern.Heads
import ScopeLint.Proofs.Pattern.Plain

/-!
# Quotes on first lines

The first line of a namespace or of an enumeration has no quotes at all. The names and words that
are captured of other first lines have none.
-/

namespace ScopeLint.Pattern

variable {line : Line} {f : Found} {found : Capture}

/-! ## Whole lines -/

theorem namespaceHead_plain : namespaceHead.Plain :=
  ⟨plain_lineStart, plain_blanks, plain_word (by decide), plain_blanks1,
    plain_capture (plain_run (by decide)), plain_blanks, plain_run (by decide), plain_blanks,
    plain_lineEnd⟩

theorem enumHead_plain : enumHead.Plain :=
  ⟨plain_lineStart, plain_blanks, plain_opt ⟨plain_word (by decide), plain_blanks1⟩,
    plain_capture (plain_word (by decide)),
    plain_opt ⟨plain_blanks1, plain_words (by decide), plain_wordEdge⟩, plain_blanks,
    plain_capture (plain_run (by decide)), plain_blanks, plain_opt (plain_one (by decide)),
    plain_run (by decide), plain_opt (plain_one (by decide)), plain_blanks, plain_lineEnd⟩

theorem unquoted_of_matchLine {ps : List Pattern} (h : (inOrder ps).matchLine line = some f)
    (hplain : (inOrder ps).Plain) (hlast : ps.getLast? = some lineEnd) :
    line.Unquoted := by
  obtain ⟨d, hpath, -⟩ := path_of_matchLine h
  obtain ⟨taken, htaken, -, hquotes⟩ := hpath.exists_takenOnly hplain.takesOnly
  rw [hpath.rest_eq_nil hlast, List.append_nil] at htaken
  rwa [← htaken] at hquotes

theorem unquoted_of_namespace (h : namespaceHead.matchLine line = some f) : line.Unquoted :=
  unquoted_of_matchLine h namespaceHead_plain rfl

theorem unquoted_of_enum (h : enumHead.matchLine line = some f) : line.Unquoted :=
  unquoted_of_matchLine h enumHead_plain rfl

/-! ## Parts -/

theorem functionName_plain : (inOrder [opt (char '~'), one isNameChar, loop nameStep]).Plain :=
  ⟨plain_opt (plain_one (by decide)), plain_one (by decide), plain_nameStep⟩

theorem holds_functionName (h : functionHead.matchLine line = some f)
    (hfound : f.part? .name = some found) : found.Holds NotQuote line :=
  holds_of_matchLine h rfl (by decide) functionName_plain.takesOnly hfound

theorem holds_variableName (h : variableHead.matchLine line = some f)
    (hfound : f.part? .name = some found) : found.Holds NotQuote line :=
  holds_of_matchLine h rfl (by decide) (plain_run1 (by decide)).takesOnly hfound

theorem holds_conditionalWord (h : f ∈ conditionalHead.findAll line)
    (hfound : f.part? .keyword = some found) : found.Holds NotQuote line :=
  holds_of_mem_findAll h rfl (by decide) (plain_words (by decide)).takesOnly hfound

theorem holds_loopWord (h : f ∈ loopWord.findAll line) (hfound : f.part? .keyword = some found) :
    found.Holds NotQuote line :=
  holds_of_mem_findAll h rfl (by decide) (plain_words (by decide)).takesOnly hfound

theorem holds_class (h : classHead.matchLine line = some f) :
    ∃ keyword name, f.part? .keyword = some keyword ∧ f.part? .name = some name ∧
      keyword.start ≤ name.start ∧ Capture.Holds NotQuote line ⟨keyword.start, name.stop⟩ := by
  obtain ⟨e, hpath, -⟩ := path_of_matchLine h
  generalize hf : f.marks = ms at hpath
  -- What may stand in front of the keyword, the keyword, the gap behind it, the name, and the rest.
  cases hpath with
  | seq hstart hpath =>
  cases hpath with
  | seq hblanks hpath =>
  cases hpath with
  | @seq _ _ _ atKeyword _ _ _ htemplate hpath =>
  cases hpath with
  | @seq _ _ _ behindKeyword _ _ _ hkeyword hpath =>
  cases hpath with
  | seq hedge hpath =>
  cases hpath with
  | @seq _ _ _ atName _ _ _ hgap hpath =>
  cases hpath with
  | @seq _ _ _ behindName _ _ _ hname hrest =>
    have hplain : (inOrder [capture .keyword (words ["class", "struct", "union"]), wordEdge, blanks,
        capture .name (run isWord)]).Plain :=
      ⟨plain_capture (plain_words (by decide)), plain_wordEdge, plain_blanks,
        plain_capture (plain_run (by decide))⟩
    obtain ⟨front, hfront, hfrontCol⟩ := (hstart.seq (hblanks.seq htemplate)).exists_taken
    obtain ⟨gap, -, hgapCol⟩ := (hkeyword.seq (hedge.seq hgap)).exists_taken
    obtain ⟨mid, hmid, hmidCol, hmidOk⟩ :=
      (hkeyword.seq (hedge.seq (hgap.seq hname))).exists_takenOnly hplain.takesOnly
    obtain ⟨ns, hword, rfl⟩ := hkeyword.exists_body
    obtain ⟨ns', hrun, rfl⟩ := hname.exists_body
    rw [hstart.marks_eq_nil rfl, hblanks.marks_eq_nil rfl, htemplate.marks_eq_nil rfl,
      hword.marks_eq_nil rfl, hedge.marks_eq_nil rfl, hgap.marks_eq_nil rfl,
      hrun.marks_eq_nil rfl, hrest.marks_eq_nil rfl] at hf
    have hline : line = front ++ atKeyword.rest := hfront
    have hcol : atKeyword.col = Line.size front := hfrontCol.trans (Nat.zero_add _)
    refine ⟨⟨atKeyword.col, behindKeyword.col⟩, ⟨atName.col, behindName.col⟩, ?_, ?_, ?_,
      ⟨front, mid, behindName.rest, ?_, hcol, ?_, hmidOk⟩⟩
    · rw [Found.part?, hf]
      rfl
    · rw [Found.part?, hf]
      rfl
    · rw [hgapCol]
      exact Nat.le_add_right _ _
    · rw [hline, hmid, List.append_assoc]
    · rw [hmidCol, hcol]

end ScopeLint.Pattern
