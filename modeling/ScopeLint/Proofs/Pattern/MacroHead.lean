import Mathlib.Data.List.Infix
import ScopeLint.Pattern.Heads
import ScopeLint.Proofs.Pattern.WholeWord
import ScopeLint.Text.Word

/-!
# Names of macros

What a `#define` anywhere in a text gives a name to, and that the pattern for it finds the first one
that does. A character that is in no name parts the definitions in front of it from those behind it.
-/

namespace ScopeLint

/-! ## Macros in a text -/

/-- What a `#define` defines: the name, and whether the parenthesis of the parameters directly
follows. -/
structure Macro where
  name : Line
  isFunction : Bool
  deriving DecidableEq, Repr

namespace Line

/-- The macro that a `#define` in front of the text defines: blanks come next, and then its name. -/
def macroBehind? (text : Line) : Option Macro :=
  let named := trimStart text
  let name := named.takeWhile isWord
  if text.head?.any isBlank && !name.isEmpty then
    some ⟨name, (named.dropWhile isWord).head? == some '('⟩
  else none

def macroHere? (text : Line) : Option Macro :=
  if "#define".toList.isPrefixOf text then macroBehind? (text.drop "#define".toList.length)
  else none

def macros (text : Line) : List Macro := text.tails.filterMap macroHere?

variable {front rest part : Line} {x : Char}

@[simp] theorem macros_nil : macros [] = [] := rfl

theorem macros_cons (x : Char) (rest : Line) :
    macros (x :: rest) = (macroHere? (x :: rest)).toList ++ macros rest := by
  rw [macros, List.tails, List.filterMap_cons]
  cases macroHere? (x :: rest) <;> rfl

theorem macroHere?_define (rest : Line) :
    macroHere? ("#define".toList ++ rest) = macroBehind? rest := by
  rw [macroHere?, if_pos (List.isPrefixOf_iff_prefix.mpr (List.prefix_append _ _)), List.drop_left]

theorem macroHere?_of_ne (h : x ≠ '#') : macroHere? (x :: rest) = none := by
  refine if_neg fun hprefix => ?_
  obtain ⟨more, hmore⟩ := List.isPrefixOf_iff_prefix.mp hprefix
  exact h (List.cons.inj hmore).1.symm

theorem name_ne_nil_of_macroBehind? {text : Line} {m : Macro} (h : text.macroBehind? = some m) :
    m.name ≠ [] := by
  rw [macroBehind?] at h
  split at h
  · rename_i hnamed
    obtain rfl := Option.some.inj h
    simpa using (Bool.and_eq_true_iff.mp hnamed).2
  · cases h

theorem name_ne_nil_of_mem_macros {text : Line} {m : Macro} (h : m ∈ text.macros) :
    m.name ≠ [] := by
  obtain ⟨here, -, hhere⟩ := List.mem_filterMap.mp h
  rw [macroHere?] at hhere
  split at hhere
  · exact name_ne_nil_of_macroBehind? hhere
  · cases hhere

/-! ### Where names end -/

def EndsNames (x : Char) : Prop := isBlank x = false ∧ isWord x = false ∧ x ≠ '('

instance (x : Char) : Decidable (EndsNames x) := inferInstanceAs (Decidable (_ ∧ _ ∧ _))

theorem takeWhile_append_cons {p : Char → Bool} (h : p x = false) :
    (front ++ x :: rest).takeWhile p = front.takeWhile p := by
  induction front with
  | nil => exact List.takeWhile_cons_of_neg (by simp [h])
  | cons y front ih => rw [List.cons_append, List.takeWhile_cons, List.takeWhile_cons, ih]

theorem dropWhile_append_cons {p : Char → Bool} (h : p x = false) :
    (front ++ x :: rest).dropWhile p = front.dropWhile p ++ x :: rest := by
  induction front with
  | nil => exact List.dropWhile_cons_of_neg (by simp [h])
  | cons y front ih =>
    rw [List.cons_append, List.dropWhile_cons, List.dropWhile_cons, ih]
    split <;> rfl

theorem macroBehind?_append_cons (h : EndsNames x) :
    macroBehind? (front ++ x :: rest) = macroBehind? front := by
  obtain ⟨hblank, hword, hparenthesis⟩ := h
  have hhead : (front ++ x :: rest).head?.any isBlank = front.head?.any isBlank := by
    cases front with
    | nil => exact hblank
    | cons y front => rfl
  have hnext (text : Line) :
      ((text ++ x :: rest).head? == some '(') = (text.head? == some '(') := by
    cases text with
    | nil => exact beq_eq_false_iff_ne.mpr fun heq => hparenthesis (Option.some.inj heq)
    | cons y text => rfl
  rw [macroBehind?, macroBehind?, trimStart, trimStart, hhead, dropWhile_append_cons hblank,
    takeWhile_append_cons hword, dropWhile_append_cons hword, hnext]

theorem prefix_append_cons_iff (h : x ∉ part) : part <+: front ++ x :: rest ↔ part <+: front := by
  refine ⟨fun ⟨more, hmore⟩ => ?_, fun hpart => hpart.trans (List.prefix_append _ _)⟩
  rcases List.append_eq_append_iff.mp hmore with ⟨tail, hfront, -⟩ | ⟨tail, hpart, htail⟩
  · exact ⟨tail, hfront.symm⟩
  · cases tail with
    | nil => exact ⟨[], by rw [hpart, List.append_nil, List.append_nil]⟩
    | cons y tail =>
      refine absurd ?_ h
      rw [hpart, (List.cons.inj htail).1]
      exact List.mem_append_right _ List.mem_cons_self

theorem macroHere?_append_cons (hne : front ≠ []) (h : EndsNames x) (hword : x ∉ "define".toList) :
    macroHere? (front ++ x :: rest) = macroHere? front := by
  obtain ⟨y, front, rfl⟩ := List.exists_cons_of_ne_nil hne
  by_cases hsign : y = '#'
  · subst hsign
    have hprefix : ("#define".toList.isPrefixOf ('#' :: front ++ x :: rest) = true) ↔
        "#define".toList.isPrefixOf ('#' :: front) = true := by
      rw [List.isPrefixOf_iff_prefix, List.isPrefixOf_iff_prefix, List.cons_append]
      show '#' :: "define".toList <+: _ ↔ '#' :: "define".toList <+: _
      rw [List.prefix_cons_inj, List.prefix_cons_inj, prefix_append_cons_iff hword]
    by_cases hdefine : "#define".toList.isPrefixOf ('#' :: front) = true
    · obtain ⟨more, hmore⟩ := List.isPrefixOf_iff_prefix.mp hdefine
      rw [← hmore, List.append_assoc, macroHere?_define, macroHere?_define,
        macroBehind?_append_cons h]
    · rw [macroHere?, macroHere?, if_neg (mt hprefix.mp hdefine), if_neg hdefine]
  · rw [List.cons_append, macroHere?_of_ne hsign, macroHere?_of_ne hsign]

/-- A character that is in no `#define` and no name parts what is defined in front of it from what
is defined from it on. -/
theorem macros_append_cons (front rest : Line) (h : EndsNames x) (hword : x ∉ "define".toList) :
    (front ++ x :: rest).macros = front.macros ++ macros (x :: rest) := by
  induction front with
  | nil => rw [List.nil_append, macros_nil, List.nil_append]
  | cons y front ih =>
    rw [List.cons_append, macros_cons, macros_cons, ih, List.append_assoc, ← List.cons_append,
      macroHere?_append_cons (List.cons_ne_nil _ _) h hword]

theorem macros_append_of_notMem {word : Line} (h : '#' ∉ word) (rest : Line) :
    (word ++ rest).macros = rest.macros := by
  induction word with
  | nil => rfl
  | cons y word ih =>
    rw [List.mem_cons, not_or] at h
    rw [List.cons_append, macros_cons, macroHere?_of_ne (Ne.symm h.1), ih h.2]
    rfl

theorem macros_append_define (front rest : Line) : (front ++ "#define".toList ++ rest).macros =
    front.macros ++ rest.macroBehind?.toList ++ rest.macros := by
  have hsign : "#define".toList ++ rest = '#' :: ("define".toList ++ rest) := rfl
  have hbehind : macros ("define".toList ++ rest) = rest.macros :=
    macros_append_of_notMem (by decide) rest
  rw [List.append_assoc, hsign, macros_append_cons front _ (by decide) (by decide), macros_cons,
    ← hsign, macroHere?_define, hbehind, List.append_assoc]

end Line

/-! ## Runs -/

def Cursor.past (test : Char → Bool) (c : Cursor) : Cursor :=
  ⟨(c.rest.takeWhile test).getLast?.or c.before, c.col + Line.size (c.rest.takeWhile test),
    c.rest.dropWhile test⟩

theorem Cursor.past_cons {test : Char → Bool} {before : Option Char} {col : Nat} {x : Char}
    {rest : Line} (h : test x = true) : Cursor.past test ⟨before, col, x :: rest⟩ =
      Cursor.past test ⟨some x, col + x.utf8Size, rest⟩ := by
  simp only [past, List.takeWhile_cons_of_pos h, List.dropWhile_cons_of_pos h, Line.size,
    List.getLast?_cons, Nat.add_assoc]
  cases (rest.takeWhile test).getLast? <;> rfl

namespace Pattern

variable {test : Char → Bool} {k : Further} {before : Option Char} {col : Nat} {x : Char}
  {rest : Line} {c : Cursor}

theorem lead_one_cons : (one test).lead k ⟨before, col, x :: rest⟩ =
    if test x then k ⟨some x, col + x.utf8Size, rest⟩ else none := by
  show ((if test x then some 1 else none).bind fun n => (Cursor.forward? n _).bind k) = _
  split <;> rfl

/-- A run takes all that it can, if there is a way on from there, or none from in front of anything
that it could take. -/
theorem lead_run (h : (k (c.past test)).isSome = true ∨
    ∀ d : Cursor, d.next?.any test = true → k d = none) :
    (run test).lead k c = k (c.past test) := by
  obtain ⟨before, col, rest⟩ := c
  rw [run, lead]
  induction rest generalizing before col with
  | nil =>
    rw [Step.leadAgain_stay fun n d _ hd => by cases hd]
    rfl
  | cons x rest ih =>
    by_cases hx : test x = true
    · have hstep : Step.one test ⟨before, col, x :: rest⟩ = some 1 := if_pos hx
      rw [Cursor.past_cons hx] at h ⊢
      rw [Step.leadAgain_move hstep rfl, ih _ _ h]
      rcases h with hsome | hnone
      · exact Option.or_of_isSome hsome
      · rw [hnone ⟨before, col, x :: rest⟩ hx, Option.or_none]
    · have hstep : Step.one test ⟨before, col, x :: rest⟩ = none := if_neg hx
      have hstay : (Step.one test).leadAgain k ⟨before, col, x :: rest⟩ =
          k ⟨before, col, x :: rest⟩ := by
        refine Step.leadAgain_stay fun n d hs _ => ?_
        rw [hstep] at hs
        cases hs
      rw [hstay, Cursor.past, List.takeWhile_cons_of_neg hx, List.dropWhile_cons_of_neg hx]
      rfl

theorem lead_run1 (h : (k (c.past test)).isSome = true ∨
    ∀ d : Cursor, d.next?.any test = true → k d = none) :
    (run1 test).lead k c = if c.next?.any test then k (c.past test) else none := by
  obtain ⟨before, col, rest⟩ := c
  cases rest with
  | nil => rfl
  | cons x rest =>
    show (one test).lead ((run test).lead k) _ = if test x then _ else none
    rw [lead_one_cons]
    by_cases hx : test x = true
    · rw [Cursor.past_cons hx] at h ⊢
      rw [if_pos hx, if_pos hx, lead_run h]
    · rw [if_neg hx, if_neg hx]

/-! ## Matches of macros -/

/-- The way on from behind the name of a macro: past the parenthesis, if it is there. -/
def behindName (c : Cursor) : Way :=
  if c.next? == some '(' then
    ⟨c.col + 1, [(.opens .parameters, c.col), (.closes .parameters, c.col + 1)]⟩
  else ⟨c.col, []⟩

theorem lead_parameters (c : Cursor) :
    (opt (capture .parameters (char '('))).lead stopping c = some (behindName c) := by
  obtain ⟨before, col, rest⟩ := c
  cases rest with
  | nil => rfl
  | cons x rest =>
    show (((char '(').lead _ _).map _).or _ = some (if some x == some '(' then _ else _)
    rw [char, lead_one_cons, Option.some_beq_some]
    by_cases hx : (x == '(') = true
    · obtain rfl := beq_iff_eq.mp hx
      rfl
    · rw [if_neg hx, if_neg hx]
      rfl

theorem lead_macroName (c : Cursor) :
    (inOrder [capture .name (run1 isWord), opt (capture .parameters (char '('))]).lead stopping c =
      if c.next?.any isWord then
        let d := c.past isWord
        some ⟨(behindName d).stop,
          (.opens .name, c.col) :: (.closes .name, d.col) :: (behindName d).marks⟩
      else none := by
  have hbehind (d : Cursor) :
      (inOrder [mark (.closes .name)]).lead
          ((inOrder [opt (capture .parameters (char '('))]).lead stopping) d =
        some ⟨(behindName d).stop, (.closes .name, d.col) :: (behindName d).marks⟩ := by
    show ((opt (capture .parameters (char '('))).lead stopping d).map _ = _
    rw [lead_parameters, Option.map_some]
  show Option.map _ ((run1 isWord).lead _ c) = _
  rw [lead_run1 (.inl (by rw [hbehind]; rfl)), hbehind]
  split <;> rfl

def Found.macroIn (f : Found) (line : Line) : Macro :=
  ⟨f.textOf line .name, (f.part? .parameters).isSome⟩

theorem macroIn_behindName (line : Line) (start stop col : Nat) (d : Cursor) :
    Found.macroIn ⟨start, stop,
        (.opens .name, col) :: (.closes .name, d.col) :: (behindName d).marks⟩ line =
      ⟨line.slice col d.col, d.next? == some '('⟩ := by
  refine congrArg (Macro.mk (line.slice col d.col)) ?_
  unfold behindName
  split
  · rename_i hnext
    exact hnext.symm
  · rename_i hnext
    exact (Bool.eq_false_iff.mpr hnext).symm

theorem any_head?_eq (text : Line) (p : Char → Bool) :
    text.head?.any p = !(text.takeWhile p).isEmpty := by
  cases text with
  | nil => rfl
  | cons x rest =>
    rw [List.head?_cons, Option.any_some, List.takeWhile_cons]
    cases p x <;> rfl

theorem lead_macroName_of_blank {d : Cursor} (h : d.next?.any isBlank = true) :
    (inOrder [capture .name (run1 isWord), opt (capture .parameters (char '('))]).lead stopping d =
      none := by
  obtain ⟨before, col, rest⟩ := d
  rw [lead_macroName, if_neg]
  intro hword
  cases rest with
  | nil => cases hword
  | cons x rest =>
    have hblank := isBlank_eq_false_of_isWord hword
    rw [show isBlank x = true from h] at hblank
    cases hblank

theorem foundAt_macroHead {line front : Line} {c : Cursor} (hline : line = front ++ c.rest)
    (hcol : c.col = Line.size front) :
    (macroHead.foundAt c).map (Found.macroIn · line) = c.rest.macroHere? := by
  show (((word "#define").lead (blanks1.lead _) c).map _).map _ = _
  rw [lead_word, Line.macroHere?]
  by_cases hprefix : "#define".toList.isPrefixOf c.rest = true
  · obtain ⟨rest, hrest⟩ := List.isPrefixOf_iff_prefix.mp hprefix
    rw [if_pos hprefix, if_pos hprefix, Cursor.forward?_append hrest.symm, Option.bind_some,
      ← hrest, List.drop_left, blanks1, lead_run1 (.inr fun _ => lead_macroName_of_blank),
      lead_macroName, Line.macroBehind?, ← any_head?_eq]
    show Option.map _ (Option.map _ (if rest.head?.any isBlank then
      if (trimStart rest).head?.any isWord then _ else none else none)) = _
    cases hblank : rest.head?.any isBlank with
    | false => rfl
    | true =>
      cases hword : (trimStart rest).head?.any isWord with
      | false => rfl
      | true =>
        -- The blanks and the name stand between the `#define` and what follows the name.
        have htext : line = front ++ "#define".toList ++ rest.takeWhile isBlank ++
            (trimStart rest).takeWhile isWord ++ (trimStart rest).dropWhile isWord := by
          rw [List.append_assoc _ _ (List.dropWhile _ _), List.takeWhile_append_dropWhile,
            trimStart, List.append_assoc, List.takeWhile_append_dropWhile, List.append_assoc, hrest,
            hline]
        refine congrArg some ((macroIn_behindName _ _ _ _ _).trans ?_)
        refine congrArg (Macro.mk · _) ?_
        have hslice := Line.slice_append (front ++ "#define".toList ++ rest.takeWhile isBlank)
          ((trimStart rest).takeWhile isWord) ((trimStart rest).dropWhile isWord)
        rw [← htext, Line.size_append, Line.size_append, ← hcol] at hslice
        exact hslice
  · rw [if_neg hprefix, if_neg hprefix]
    rfl

theorem map_rest_all (line : Line) : (Cursor.all line).map (·.rest) = line.tails := by
  have hfrom (before : Option Char) (col : Nat) :
      (Cursor.allFrom before col line).map (·.rest) = line.tails := by
    induction line generalizing before col with
    | nil => rfl
    | cons x rest ih =>
      rw [Cursor.allFrom, List.map_cons, ih]
      rfl
  exact hfrom none 0

theorem find_macroHead (line : Line) :
    (macroHead.find line).map (Found.macroIn · line) = line.macros.head? := by
  have hplaces : (Cursor.all line).filterMap
      (fun c => (macroHead.foundAt c).map (Found.macroIn · line)) =
      (Cursor.all line).filterMap fun c => Line.macroHere? c.rest := by
    refine List.filterMap_congr fun c hc => ?_
    obtain ⟨front, hline, hcol, -⟩ := Cursor.mem_all_iff.mp hc
    exact foundAt_macroHead hline hcol
  rw [find, matchesAt_eq_map, List.filterMap_map, ← List.head?_map, List.map_filterMap, Line.macros,
    ← map_rest_all, List.filterMap_map]
  exact congrArg List.head? hplaces

end Pattern

end ScopeLint
