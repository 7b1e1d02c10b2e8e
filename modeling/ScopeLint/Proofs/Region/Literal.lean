import ScopeLint.Proofs.Pattern.Framed
import ScopeLint.Proofs.Region.Alike

/-!
# Regions of codes that differ inside literals

Where the lines of two codes differ inside closed literals alone, a first line is found in both or
in none, its name is the same, and so is the extent that starts there.
-/

namespace ScopeLint

open Region

/-! ## Words outside literals -/

theorem Inert.inLiteral_of_covers {i : Inert} {p : Position} (h : i.covers p = false) :
    i.inLiteral p = false :=
  (Bool.or_eq_false_iff.mp h).2

namespace Line.SameOutside

variable {inside : Nat → Bool} {ok : Char → Prop} {x y : Line} {found : Capture}

theorem exists_capture (h : SameOutside inside ok 0 x y) (hfound : found.Holds NotQuote x)
    (hout : inside found.start = false) :
    ∃ front front' mid back back', x = front ++ mid ++ back ∧ y = front' ++ mid ++ back' ∧
      size front = found.start ∧ size front' = found.start ∧
      found.start + size mid = found.stop ∧ SameOutside inside ok found.stop back back' := by
  obtain ⟨front, mid, back, rfl, hstart, hstop, hquotes⟩ := hfound
  rw [hstart] at hout ⊢
  rw [List.append_assoc] at h
  obtain ⟨front', rest', rfl, hsize, hrest⟩ := h.exists_suffix (by rwa [Nat.zero_add])
  obtain ⟨back', rfl, hback⟩ := hrest.exists_stretch hquotes
  rw [Nat.zero_add, ← hstop] at hback
  exact ⟨front, front', mid, back, back', rfl, (List.append_assoc _ _ _).symm, rfl, hsize,
    hstop.symm, hback⟩

theorem slice_eq (h : SameOutside inside ok 0 x y) (hfound : found.Holds NotQuote x)
    (hout : inside found.start = false) {start stop : Nat} (hstart : found.start ≤ start)
    (hstop : stop ≤ found.stop) : x.slice start stop = y.slice start stop := by
  obtain ⟨front, front', mid, back, back', rfl, rfl, hfront, hfront', hmid, -⟩ :=
    h.exists_capture hfound hout
  rw [slice_within (by omega) (by omega), slice_within (by omega) (by omega), hfront, hfront']

theorem slice_found (h : SameOutside inside ok 0 x y) (hfound : found.Holds NotQuote x)
    (hout : inside found.start = false) :
    x.slice found.start found.stop = y.slice found.start found.stop :=
  h.slice_eq hfound hout (Nat.le_refl _) (Nat.le_refl _)

end Line.SameOutside

namespace Code

/-! ## Lines with their literals closed -/

/-- Two codes that differ inside closed literals alone. -/
structure AlikeOutsideLiterals (ok : Char → Prop) (a b : Code) : Prop where
  length : a.lines.length = b.lines.length
  bytes : a.bytes = b.bytes
  covers : a.inert.covers = b.inert.covers
  inMacro : a.inMacro = b.inMacro
  line : ∀ i x y, a.lines[i]? = some x → b.lines[i]? = some y →
    Line.SameOutside (fun col => a.inert.inLiteral ⟨i, col⟩) ok 0 x y

namespace AlikeOutsideLiterals

variable {a b : Code} {ok : Char → Prop} {i : Nat} {x y : Line}

/-! ### Classes, functions, variables -/

theorem classOn_eq (h : a.AlikeOutsideLiterals ok b) (hok : Pattern.NoFeed ok)
    (hx : a.lines[i]? = some x) (hy : b.lines[i]? = some y) : classOn a i x = classOn b i y := by
  have hline := h.line i x y hx hy
  unfold classOn
  rw [← Pattern.matchLine_eq_of_blind (Pattern.classHead_blind hok) hline]
  split
  · rfl
  · rename_i f hf
    obtain ⟨keyword, name, hkeyword, hname, hle, hholds⟩ := Pattern.holds_class hf
    rw [hkeyword]
    refine braced?_congr h.covers (fun _ => by rw [resolve_congr h.bytes]) fun hfree => ?_
    rw [Pattern.Found.textOf, Pattern.Found.textOf, hname]
    exact hline.slice_eq hholds (Inert.inLiteral_of_covers hfree) hle (Nat.le_refl _)

theorem functionOn_eq (h : a.AlikeOutsideLiterals ok b) (hok : Pattern.NoFeed ok)
    (hclosing : ∀ c, ok c → c ≠ ')') (hx : a.lines[i]? = some x) (hy : b.lines[i]? = some y) :
    functionOn a i x = functionOn b i y := by
  have hline := h.line i x y hx hy
  unfold functionOn
  rw [← Pattern.matchLine_eq_of_blind (Pattern.functionHead_blind hok hclosing) hline,
    ← hline.firstCodeCol, ← h.covers, resolve_congr h.bytes]
  split
  · rfl
  · rename_i name hname
    obtain ⟨f, hf, hpart⟩ := Option.bind_eq_some_iff.mp hname
    simp only
    split
    · rfl
    · rename_i hfree
      have hout := (Bool.or_eq_false_iff.mp (Bool.eq_false_iff.mpr hfree)).2
      rw [hline.slice_found (Pattern.holds_functionName hf hpart) (Inert.inLiteral_of_covers hout)]

theorem variableOn_eq (h : a.AlikeOutsideLiterals ok b) (hok : Pattern.NoFeed ok)
    (hx : a.lines[i]? = some x) (hy : b.lines[i]? = some y) :
    variableOn a i x = variableOn b i y := by
  have hline := h.line i x y hx hy
  have hlast : Line.lastCol (trimEnd x) = Line.lastCol (trimEnd y) := by
    rw [Line.lastCol, Line.lastCol, hline.size_trimEnd]
  unfold variableOn
  rw [← Pattern.matchLine_eq_of_blind (Pattern.variableHead_blind hok) hline,
    ← hline.firstCodeCol, ← h.covers, ← hlast]
  split
  · rfl
  · rename_i name hname
    obtain ⟨f, hf, hpart⟩ := Option.bind_eq_some_iff.mp hname
    simp only
    split
    · rfl
    · rename_i hfree
      have hout := (Bool.or_eq_false_iff.mp (Bool.eq_false_iff.mpr hfree)).2
      rw [hline.slice_found (Pattern.holds_variableName hf hpart) (Inert.inLiteral_of_covers hout)]

/-! ### Words of conditionals and loops -/

def wordsOf (p : Pattern) (line : Line) : List Capture :=
  (p.findAll line).filterMap (·.part? .keyword)

theorem filter_filterMap {α β : Type} {f : α → Option β} {keep : α → Bool} {free : β → Bool}
    (h : ∀ a b, f a = some b → free b = true → keep a = true) (items : List α) :
    (items.filterMap f).filter free = ((items.filter keep).filterMap f).filter free := by
  induction items with
  | nil => rfl
  | cons a rest ih =>
    cases hf : f a with
    | none => cases hk : keep a <;> simp [hf, hk, ih]
    | some b =>
      cases hk : keep a with
      | true => simp [hf, hk, List.filter_cons, ih]
      | false =>
        have hb : free b = false := by
          refine Bool.eq_false_iff.mpr fun hb => ?_
          rw [h a b hf hb] at hk
          cases hk
        simp [hf, hk, hb, ih]

variable {before after : Char → Bool} {ss : List String} {offset : Nat}

theorem filter_wordsOf (hss : Pattern.Quoteless before after ss)
    (hline : Line.SameOutside (fun col => a.inert.inLiteral ⟨i, offset + col⟩) ok 0 x y) :
    (wordsOf (.framed before after ss) x).filter (fun w => !a.inert.covers ⟨i, offset + w.start⟩) =
      (wordsOf (.framed before after ss) y).filter
        fun w => !a.inert.covers ⟨i, offset + w.start⟩ := by
  have hkeep : ∀ (f : Pattern.Found) (w : Capture), f.part? .keyword = some w →
      (!a.inert.covers ⟨i, offset + w.start⟩) = true →
      Pattern.outside (fun col => a.inert.inLiteral ⟨i, offset + col⟩) f = true := by
    intro f w hw hfree
    rw [Pattern.outside, hw, Option.any_some, Inert.inLiteral_of_covers (by simpa using hfree)]
    rfl
  rw [wordsOf, wordsOf, filter_filterMap hkeep (Pattern.findAll _ x),
    filter_filterMap hkeep (Pattern.findAll _ y), hss.filter_findAll hline]

theorem conditionalWord?_eq (h : a.AlikeOutsideLiterals ok b)
    (hx : a.lines[i]? = some x) (hy : b.lines[i]? = some y) :
    conditionalWord? a i x = conditionalWord? b i y := by
  have hline := h.line i x y hx hy
  have hwords := @filter_wordsOf a ok i x y _ _ _ 0 Pattern.quoteless_conditional
    (by simpa only [Nat.zero_add] using hline)
  simp only [Nat.zero_add] at hwords
  rw [conditionalWord?, conditionalWord?, ← h.covers, ← List.head?_filter, ← List.head?_filter]
  exact congrArg List.head? hwords

theorem readLoopWords_filter (code : Code) (index offset : Nat) (rest : Line) (nested : Nat)
    (words : List Capture) : readLoopWords code index offset rest nested words =
      readLoopWords code index offset rest nested
        (words.filter fun w => !code.inert.covers ⟨index, offset + w.start⟩) := by
  induction words generalizing nested with
  | nil => rfl
  | cons word more ih =>
    cases hword : code.inert.covers ⟨index, offset + word.start⟩ with
    | true => rw [List.filter_cons_of_neg (by simp [hword]), readLoopWords, if_pos hword, ih]
    | false =>
      rw [List.filter_cons_of_pos (by simp [hword]), readLoopWords, readLoopWords]
      simp only [hword, ih]

theorem readLoopWords_congr (hcovers : a.inert.covers = b.inert.covers) (hbytes : a.bytes = b.bytes)
    {index : Nat} {words : List Capture}
    (hwords : ∀ w ∈ words, x.slice w.start w.stop = y.slice w.start w.stop) (nested : Nat) :
    readLoopWords a index offset x nested words = readLoopWords b index offset y nested words := by
  induction words generalizing nested with
  | nil => rfl
  | cons word more ih =>
    have ih := ih fun w hw => hwords w (List.mem_cons_of_mem _ hw)
    rw [readLoopWords, readLoopWords, hcovers, loopStatement?_congr hbytes,
      hwords word List.mem_cons_self]
    simp only [ih]

theorem loopStep_eq (h : a.AlikeOutsideLiterals ok b) {front front' : Line}
    (hfront : Line.size front = offset) (hfront' : Line.size front' = offset)
    (hpart : Line.SameOutside (fun col => a.inert.inLiteral ⟨i, offset + col⟩) ok 0 x y)
    (nested : Nat) :
    loopStep a nested offset i (front ++ x) = loopStep b nested offset i (front' ++ y) := by
  have hwords := filter_wordsOf Pattern.quoteless_loop hpart
  have hleft := Line.from?_append front x
  have hright := Line.from?_append front' y
  rw [hfront] at hleft
  rw [hfront'] at hright
  have hslices : ∀ w ∈ (wordsOf .loopWord x).filter
      (fun w => !a.inert.covers ⟨i, offset + w.start⟩),
      x.slice w.start w.stop = y.slice w.start w.stop := by
    intro w hw
    obtain ⟨hmem, hfree⟩ := List.mem_filter.mp hw
    obtain ⟨f, hf, hpart'⟩ := List.mem_filterMap.mp hmem
    exact hpart.slice_found (Pattern.holds_loopWord hf hpart')
      (Inert.inLiteral_of_covers (by simpa using hfree))
  rw [loopStep, loopStep, hleft, hright, Option.getD_some, Option.getD_some, readLoopWords_filter,
    readLoopWords_filter b, ← h.covers]
  rw [← Pattern.loopWord_eq] at hwords
  refine (readLoopWords_congr h.covers h.bytes hslices nested).trans ?_
  rw [hwords]
  rfl

theorem loopEnd_eq (h : a.AlikeOutsideLiterals ok b) {front front' back back' : Line}
    (hx : a.lines[i]? = some (front ++ back)) (hy : b.lines[i]? = some (front' ++ back'))
    (hfront : Line.size front = offset) (hfront' : Line.size front' = offset)
    (hback : Line.SameOutside (fun col => a.inert.inLiteral ⟨i, col⟩) ok offset back back') :
    loopEnd a ⟨i, offset⟩ = loopEnd b ⟨i, offset⟩ := by
  refine loopEnd_congr h.inMacro h.length ?_ ?_
  · intro nested x y _ hx' hy'
    obtain rfl := Option.some.inj (hx.symm.trans hx')
    obtain rfl := Option.some.inj (hy.symm.trans hy')
    exact h.loopStep_eq hfront hfront' (@Line.SameOutside.shift _ _ 0 _ _ offset hback) nested
  · intro nested j x y _ hx' hy'
    rw [Nat.zero_add]
    have hline : Line.SameOutside (fun col => a.inert.inLiteral ⟨j, 0 + col⟩) ok 0 x y := by
      simpa only [Nat.zero_add] using h.line j x y hx' hy'
    exact h.loopStep_eq (show Line.size [] = 0 from rfl) (show Line.size [] = 0 from rfl) hline
      nested

/-! ### Conditionals -/

/-- What follows an `else` decides its name by its first word alone. -/
theorem conditionalName_eq (line : Line) (keyword : Capture) :
    conditionalName line keyword =
      let word := line.slice keyword.start keyword.stop
      let rest := trimStart (line.slice keyword.stop line.size)
      if word == "else".toList && "if".toList.isPrefixOf rest &&
          !(rest.drop 2).head?.any (fun c => isAlphanumeric c || c == '_') then "else if".toList
      else word := by
  unfold conditionalName
  simp only
  split
  · rename_i more hword hrest
    rw [hword, hrest]
    cases hmore : more.head?.any fun c => isAlphanumeric c || c == '_' <;> simp [hmore]
  · rename_i hnone
    rw [if_neg]
    rw [Bool.and_eq_true, Bool.and_eq_true, List.isPrefixOf_iff_prefix]
    rintro ⟨⟨hword, more, hmore⟩, -⟩
    exact hnone more hword hmore.symm

theorem conditionalName_congr {front front' back back' : Line} {keyword : Capture}
    (hword : (front ++ back).slice keyword.start keyword.stop =
      (front' ++ back').slice keyword.start keyword.stop)
    (hfront : Line.size front = keyword.stop) (hfront' : Line.size front' = keyword.stop)
    (hback : Line.SameToQuote back back') :
    conditionalName (front ++ back) keyword = conditionalName (front' ++ back') keyword := by
  have hrest : ∀ {front back : Line}, Line.size front = keyword.stop →
      (front ++ back).slice keyword.stop (front ++ back).size = back := by
    intro front back hfront
    have hslice := Line.slice_append front back []
    rwa [List.append_nil, ← Line.size_append, hfront] at hslice
  have htrim : Line.SameToQuote (trimStart back) (trimStart back') := hback.dropWhile (by decide)
  have hif : Line.Unquoted "if".toList := by decide
  rw [conditionalName_eq, conditionalName_eq, hword, hrest hfront, hrest hfront']
  simp only [← htrim.isPrefixOf hif]
  cases hprefix : "if".toList.isPrefixOf (trimStart back) with
  | false => simp
  | true =>
    have hbehind : Option.Rel QuoteAlike ((trimStart back).drop 2).head?
        ((trimStart back').drop 2).head? :=
      (htrim.drop hif (List.isPrefixOf_iff_prefix.mp hprefix)).head?
    have hblind : QuoteBlind fun c => isAlphanumeric c || c == '_' := by decide
    simp only [hblind.any_eq hbehind]

theorem conditionalOn_eq (h : a.AlikeOutsideLiterals ok b)
    (hx : a.lines[i]? = some x) (hy : b.lines[i]? = some y) :
    conditionalOn a i x = conditionalOn b i y := by
  have hline := h.line i x y hx hy
  unfold conditionalOn
  rw [← h.conditionalWord?_eq hx hy]
  split
  · rfl
  · rename_i keyword hkeyword
    have hfree : a.inert.covers ⟨i, keyword.start⟩ = false := by
      simpa using List.find?_some hkeyword
    obtain ⟨f, hf, hpart⟩ := List.mem_filterMap.mp (List.mem_of_find?_eq_some hkeyword)
    have hholds := Pattern.holds_conditionalWord hf hpart
    have hword := hline.slice_found hholds (Inert.inLiteral_of_covers hfree)
    obtain ⟨front, front', mid, back, back', rfl, rfl, hfront, hfront', hmid, hback⟩ :=
      hline.exists_capture hholds (Inert.inLiteral_of_covers hfree)
    have hstop : Line.size (front ++ mid) = keyword.stop := by rw [Line.size_append, hfront, hmid]
    have hstop' : Line.size (front' ++ mid) = keyword.stop := by
      rw [Line.size_append, hfront', hmid]
    have hend : conditionalEnd a i (front ++ mid ++ back) keyword =
        conditionalEnd b i (front' ++ mid ++ back') keyword := by
      unfold conditionalEnd
      simp only [hword, loopStatement?_congr h.bytes, resolve_congr h.bytes,
        h.loopEnd_eq hx hy hstop hstop' hback]
    rw [hend, conditionalName_congr hword hstop hstop' hback.toQuote]

/-! ### Searches -/

theorem sweep_eq (h : a.AlikeOutsideLiterals ok b)
    {f g : Nat → Line → Except Unbalanced (Option Region)}
    (hfg : ∀ i x y, a.lines[i]? = some x → b.lines[i]? = some y → f i x = g i y) :
    sweep (outsideMacros a f) 0 a.lines = sweep (outsideMacros b g) 0 b.lines := by
  refine sweep_congr h.inMacro h.length fun i x y _ hx hy => ?_
  rw [Nat.zero_add]
  exact hfg i x y hx hy

theorem classes_eq (h : a.AlikeOutsideLiterals ok b) (hok : Pattern.NoFeed ok) :
    classes a = classes b :=
  h.sweep_eq fun _ _ _ hx hy => h.classOn_eq hok hx hy

theorem functions_eq (h : a.AlikeOutsideLiterals ok b) (hok : Pattern.NoFeed ok)
    (hclosing : ∀ c, ok c → c ≠ ')') : functions a = functions b :=
  h.sweep_eq fun _ _ _ hx hy => h.functionOn_eq hok hclosing hx hy

theorem allVariables_eq (h : a.AlikeOutsideLiterals ok b) (hok : Pattern.NoFeed ok) :
    allVariables a = allVariables b :=
  h.sweep_eq fun _ _ _ hx hy => congrArg Except.ok (h.variableOn_eq hok hx hy)

theorem conditionals_eq (h : a.AlikeOutsideLiterals ok b) : conditionals a = conditionals b :=
  h.sweep_eq fun _ _ _ hx hy => h.conditionalOn_eq hx hy

end AlikeOutsideLiterals

end Code

end ScopeLint
