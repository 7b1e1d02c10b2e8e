import ScopeLint.Pattern.Heads
import ScopeLint.Proofs.Pattern
import ScopeLint.Text.Word

/-!
# Where the parts of first lines start

What is captured of a first line starts with a character that is not blank.
-/

namespace ScopeLint.Pattern

variable {line : Line} {f : Found} {found : Capture}

theorem isBlank_eq_false_of_isNameChar {c : Char} (h : isNameChar c = true) :
    isBlank c = false := by
  unfold isNameChar at h
  rw [Bool.or_eq_true, beq_iff_eq] at h
  rcases h with h | rfl
  · exact isBlank_eq_false_of_isWord h
  · rfl

theorem Path.exists_word {s : String} {c d : Cursor} {ms : List (Mark × Nat)}
    (h : Path (word s) c d ms) : ∃ rest, c.rest = s.toList ++ rest := by
  cases h with
  | step hs hd =>
    unfold Step.text at hs
    split at hs
    · rename_i hword
      obtain ⟨rest, hrest⟩ := List.isPrefixOf_iff_prefix.mp hword
      exact ⟨rest, hrest.symm⟩
    · cases hs

theorem exists_define (h : directiveHead.matchLine line = some f)
    (hfound : f.part? .keyword = some found) :
    ∃ front rest, line = front ++ "#define".toList ++ rest ∧ found.start = Line.size front := by
  obtain ⟨front, c, d, ms, rfl, hstart, hpath⟩ :=
    exists_part rfl (by decide) h hfound
  obtain ⟨rest, hrest⟩ := hpath.exists_word
  exact ⟨front, rest, by rw [hrest, List.append_assoc], hstart⟩

theorem exists_directive (h : directiveHead.matchLine line = some f)
    (hfound : f.part? .keyword = some found) :
    ∃ front rest, line = front ++ '#' :: rest ∧ found.start = Line.size front := by
  obtain ⟨front, rest, hline, hstart⟩ := exists_define h hfound
  exact ⟨front, "define".toList ++ rest, by rw [hline, List.append_assoc]; rfl, hstart⟩

theorem hasCodeAt_directive (h : directiveHead.matchLine line = some f)
    (hfound : f.part? .keyword = some found) : line.HasCodeAt found.start := by
  obtain ⟨front, rest, hline, hstart⟩ := exists_directive h hfound
  exact ⟨front, '#', rest, hline, hstart, rfl⟩

/-! ## Patterns of code -/

/-- Whatever the pattern accepts starts with a character that is not blank. -/
def StartsWithCode (p : Pattern) : Prop :=
  ∀ c d ms, Path p c d ms → ∃ x rest, c.rest = x :: rest ∧ isBlank x = false

theorem startsWithCode_one {test : Char → Bool} (h : ∀ x, test x = true → isBlank x = false) :
    (one test).StartsWithCode := by
  intro c d ms hpath
  obtain ⟨x, hx, -, hok, -⟩ := hpath.exists_one
  exact ⟨x, d.rest, hx, h x hok⟩

def IsCode (w : String) : Prop := (w.toList.head?.any fun x => !isBlank x) = true

instance (w : String) : Decidable (IsCode w) := inferInstanceAs (Decidable (_ = _))

theorem IsCode.exists_cons {w : String} (h : IsCode w) :
    ∃ x rest, w.toList = x :: rest ∧ isBlank x = false := by
  unfold IsCode at h
  cases htext : w.toList with
  | nil => simp [htext] at h
  | cons x rest => exact ⟨x, rest, rfl, by simpa [htext] using h⟩

theorem startsWithCode_word {w : String} (h : IsCode w) : (word w).StartsWithCode := by
  intro c d ms hpath
  obtain ⟨x, more, hw, hx⟩ := h.exists_cons
  obtain ⟨rest, hrest⟩ := hpath.exists_word
  exact ⟨x, more ++ rest, by rw [hrest, hw, List.cons_append], hx⟩

theorem startsWithCode_words {ss : List String} (h : ∀ w ∈ ss, IsCode w) :
    (words ss).StartsWithCode := by
  intro c d ms hpath
  obtain ⟨w, hw, hrest, -⟩ := hpath.exists_words
  obtain ⟨x, more, htext, hx⟩ := (h w hw).exists_cons
  exact ⟨x, more ++ d.rest, by rw [hrest, htext, List.cons_append], hx⟩

theorem StartsWithCode.seq {p q : Pattern} (h : p.StartsWithCode) : (seq p q).StartsWithCode := by
  intro c d ms hpath
  cases hpath with
  | seq front => exact h _ _ _ front

theorem StartsWithCode.capture {part : Part} {body : Pattern} (h : body.StartsWithCode) :
    (capture part body).StartsWithCode := by
  intro c d ms hpath
  obtain ⟨ns, hbody, -⟩ := hpath.exists_body
  exact h _ _ _ hbody

theorem startsWithCode_functionName :
    (inOrder [opt (char '~'), one isNameChar, loop nameStep]).StartsWithCode := by
  intro c d ms hpath
  cases hpath with
  | seq htilde hrest =>
    cases htilde with
    | preferred htilde =>
      refine startsWithCode_one (fun x hx => ?_) _ _ _ htilde
      obtain rfl : x = '~' := by simpa using hx
      rfl
    | other hnone =>
      obtain ⟨rfl, -⟩ := hnone.eq_of_guarded
      exact (startsWithCode_one fun _ => isBlank_eq_false_of_isNameChar).seq _ _ _ hrest

/-! ## Parts of matches -/

theorem StartsWithCode.hasCodeAt {p : Pattern} (h : p.StartsWithCode) {c d : Cursor}
    {ms : List (Mark × Nat)} (hpath : Path p c d ms) {front : Line} (hline : line = front ++ c.rest) :
    line.HasCodeAt (Line.size front) := by
  obtain ⟨x, rest, hrest, hx⟩ := h _ _ _ hpath
  exact ⟨front, x, rest, by rw [hline, hrest], rfl, hx⟩

theorem hasCodeAt_part {ps : List Pattern} {part : Part} {body : Pattern}
    (hps : ps.filter (fun q => decide (q.Sets part)) = [capture part body])
    (hbody : ¬body.Sets part) (hcode : body.StartsWithCode)
    (h : (inOrder ps).matchLine line = some f) (hfound : f.part? part = some found) :
    line.HasCodeAt found.start := by
  obtain ⟨front, c, d, ms, hline, hstart, hpath⟩ := exists_part hps hbody h hfound
  rw [hstart]
  exact hcode.hasCodeAt hpath hline

theorem hasCodeAt_functionName (h : functionHead.matchLine line = some f)
    (hfound : f.part? .name = some found) : line.HasCodeAt found.start :=
  hasCodeAt_part rfl (by decide) startsWithCode_functionName h hfound

theorem exists_front_functionName (h : functionHead.matchLine line = some f)
    (hfound : f.part? .name = some found) : ∃ front rest, line = front ++ rest ∧
      found.start = Line.size front ∧ ∀ x ∈ front, (isNameChar x || isBlank x) = true := by
  obtain ⟨d, hpath, -⟩ := path_of_matchLine h
  obtain ⟨hopens, hcloses⟩ := Found.marks_of_part? hfound
  have hparts : Path (inOrder
      ([lineStart, run fun c => isNameChar c || isBlank c, guarded (·.before.all isBlank)] ++
        capture .name _ :: _)) _ d _ := hpath
  obtain ⟨c, -, _, _, hfront, -, hstart, -⟩ :=
    hparts.exists_capture (by decide) (by decide) (by decide) hopens hcloses
  cases hfront with
  | seq hlineStart hrest =>
    obtain ⟨rfl, -⟩ := hlineStart.eq_of_guarded
    cases hrest with
    | seq hrun hguarded =>
      obtain ⟨rfl, -⟩ := hguarded.eq_of_guarded
      obtain ⟨taken, hline, hcol, htaken⟩ := hrun.exists_run
      exact ⟨taken, c.rest, hline, by rw [hstart, hcol, Nat.zero_add], htaken⟩

theorem hasCodeAt_variableName (h : variableHead.matchLine line = some f)
    (hfound : f.part? .name = some found) : line.HasCodeAt found.start :=
  hasCodeAt_part rfl (by decide) (startsWithCode_one fun _ => isBlank_eq_false_of_isWord).seq h
    hfound

theorem hasCodeAt_classKeyword (h : classHead.matchLine line = some f)
    (hfound : f.part? .keyword = some found) : line.HasCodeAt found.start :=
  hasCodeAt_part rfl (by decide) (startsWithCode_words (by decide)) h hfound

theorem hasCodeAt_conditionalWord (h : f ∈ conditionalHead.findAll line)
    (hfound : f.part? .keyword = some found) : line.HasCodeAt found.start := by
  obtain ⟨front, c, d, hline, hcol, hpath, -⟩ := path_of_mem_findAll h
  obtain ⟨hopens, hcloses⟩ := Found.marks_of_part? hfound
  obtain ⟨c', d', ns, taken, hword, htaken, hcol', hstart, -⟩ :=
    hpath.exists_part rfl (by decide) hopens hcloses
  have htext : line = front ++ taken ++ c'.rest := by rw [hline, htaken, List.append_assoc]
  have hcode := (startsWithCode_words (by decide)).hasCodeAt hword htext
  rwa [Line.size_append, ← hcol, ← hcol', ← hstart] at hcode

/-! ## Lines of code -/

theorem exists_hasCodeAt {front back : List Pattern} {p : Pattern} (hcode : p.StartsWithCode)
    (h : (inOrder (front ++ p :: back)).matchLine line = some f) : ∃ col, line.HasCodeAt col := by
  obtain ⟨d, hpath, -⟩ := path_of_matchLine h
  obtain ⟨e, _, _, hfront, hrest, -⟩ := hpath.exists_append
  rw [← List.singleton_append] at hrest
  obtain ⟨e', _, _, hp, -⟩ := hrest.exists_append
  obtain ⟨taken, htaken, -⟩ := hfront.exists_taken
  exact ⟨_, hcode.hasCodeAt hp htaken⟩

theorem exists_hasCodeAt_namespace (h : namespaceHead.matchLine line = some f) :
    ∃ col, line.HasCodeAt col :=
  @exists_hasCodeAt _ _ [lineStart, blanks] _ _ (startsWithCode_word (by decide)) h

theorem exists_hasCodeAt_enum (h : enumHead.matchLine line = some f) :
    ∃ col, line.HasCodeAt col :=
  @exists_hasCodeAt _ _ [lineStart, blanks, opt (inOrder [word "typedef", blanks1])] _ _
    (startsWithCode_word (by decide)).capture h

end ScopeLint.Pattern
