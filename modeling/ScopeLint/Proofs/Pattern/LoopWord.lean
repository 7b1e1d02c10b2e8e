import ScopeLint.Proofs.Pattern.Framed
import ScopeLint.Text.Word

/-!
# Loop words

The whole words `do` and `while` of a line, and which of them are found: a match takes a character
on either side of its word and matches do not overlap, so a word is only missed one character behind
another one.
-/

namespace ScopeLint

/-! ## Whole words -/

def Cursor.loopWord? (c : Cursor) : Option Capture :=
  if c.before.any isWord then none
  else
    (c.wordAhead? (["while", "do"].map String.toList)).map fun w => ⟨c.col, c.col + Line.size w⟩

namespace Line

def loopWordsFrom (before : Option Char) (col : Nat) (line : Line) : List Capture :=
  (Cursor.allFrom before col line).filterMap Cursor.loopWord?

def loopWords (line : Line) : List Capture := loopWordsFrom none 0 line

end Line

theorem isWord_of_mem_loopWord {w : String} (hw : w ∈ ["while", "do"]) {x : Char}
    (hx : x ∈ w.toList) : isWord x = true := by
  have hword : ∀ w ∈ ["while", "do"], w.toList.all isWord = true := by decide +kernel
  exact List.all_eq_true.mp (hword w hw) x hx

theorem eq_of_startsWith_both {v w : String} {line : Line} (hv : v ∈ ["while", "do"])
    (hw : w ∈ ["while", "do"]) (hvLine : v.toList <+: line) (hwLine : w.toList <+: line) :
    v = w := by
  obtain ⟨rest, rfl⟩ := hvLine
  obtain ⟨rest', hrest⟩ := hwLine
  simp only [List.mem_cons, List.not_mem_nil, or_false] at hv hw
  rcases hv with rfl | rfl <;> rcases hw with rfl | rfl
  · rfl
  · cases (List.cons.inj hrest).1
  · cases (List.cons.inj hrest).1
  · rfl

/-- The loop word that comes next is the first that passes a test, where it passes and the test asks
for words that come next. -/
theorem find?_loopWord {p : Line → Bool} {line : Line} {w : String} (hw : w ∈ ["while", "do"])
    (hwLine : w.toList <+: line) (hok : p w.toList = true)
    (hnext : ∀ v : Line, p v = true → v <+: line) :
    (["while", "do"].map String.toList).find? p = some w.toList := by
  cases hfind : (["while", "do"].map String.toList).find? p with
  | none => exact absurd hok (List.find?_eq_none.mp hfind _ (List.mem_map_of_mem hw))
  | some v =>
    obtain ⟨v, hv, rfl⟩ := List.mem_map.mp (List.mem_of_find?_eq_some hfind)
    rw [eq_of_startsWith_both hv hw (hnext _ (List.find?_some hfind)) hwLine]

namespace Cursor

variable {c : Cursor} {word : Capture} {before : Option Char} {col : Nat} {line : Line}

theorem loopWord?_eq_some_iff : c.loopWord? = some word ↔
    c.before.any isWord = false ∧ ∃ w ∈ ["while", "do"], ∃ rest, c.rest = w.toList ++ rest ∧
      rest.head?.any isWord = false ∧ word = ⟨c.col, c.col + Line.size w.toList⟩ := by
  have hahead {w : Line} : (w.isPrefixOf c.rest && !(c.rest.drop w.length).head?.any isWord) = true ↔
      ∃ rest, c.rest = w ++ rest ∧ rest.head?.any isWord = false := by
    rw [Bool.and_eq_true, List.isPrefixOf_iff_prefix, Bool.not_eq_true']
    constructor
    · rintro ⟨⟨rest, hrest⟩, hnext⟩
      rw [← hrest, List.drop_left] at hnext
      exact ⟨rest, hrest.symm, hnext⟩
    · rintro ⟨rest, hrest, hnext⟩
      rw [hrest, List.drop_left]
      exact ⟨⟨rest, rfl⟩, hnext⟩
  rw [loopWord?, wordAhead?]
  cases hbefore : c.before.any isWord with
  | true => simp
  | false =>
    rw [if_neg Bool.false_ne_true, Option.map_eq_some_iff]
    constructor
    · rintro ⟨w, hfind, rfl⟩
      have hhere := List.find?_some hfind
      obtain ⟨rest, hrest, hnext⟩ := hahead.mp hhere
      obtain ⟨w, hw, rfl⟩ := List.mem_map.mp (List.mem_of_find?_eq_some hfind)
      exact ⟨rfl, w, hw, rest, hrest, hnext, rfl⟩
    · rintro ⟨-, w, hw, rest, hrest, hnext, rfl⟩
      refine ⟨w.toList, ?_, rfl⟩
      refine find?_loopWord hw ⟨rest, hrest.symm⟩ (hahead.mpr ⟨rest, hrest, hnext⟩) fun v hv => ?_
      exact List.isPrefixOf_iff_prefix.mp (Bool.and_eq_true_iff.mp hv).1

theorem isWord_of_loopWord? {x : Char} {rest : Line}
    (h : loopWord? ⟨before, col, x :: rest⟩ = some word) : isWord x = true := by
  obtain ⟨-, w, hw, rest', hrest, -⟩ := loopWord?_eq_some_iff.mp h
  obtain ⟨y, more, hy⟩ := List.exists_cons_of_ne_nil (Pattern.quoteless_loop.word w hw).1
  rw [hy] at hrest
  obtain ⟨rfl, -⟩ := List.cons.inj hrest
  exact isWord_of_mem_loopWord hw (by rw [hy]; exact List.mem_cons_self)

theorem loopWord?_eq_none {x : Char} {rest : Line} (hx : isWord x = false) :
    loopWord? ⟨before, col, x :: rest⟩ = none := by
  refine Option.eq_none_iff_forall_ne_some.mpr fun word hword => ?_
  rw [isWord_of_loopWord? hword] at hx
  cases hx

@[simp] theorem loopWord?_nil : loopWord? ⟨before, col, []⟩ = none := by
  cases before <;> simp [loopWord?, wordAhead?]

end Cursor

namespace Line

variable {before : Option Char} {col : Nat} {line : Line}

@[simp] theorem loopWordsFrom_nil : loopWordsFrom before col [] = [] := by
  simp [loopWordsFrom, Cursor.allFrom]

theorem loopWordsFrom_cons (x : Char) (rest : Line) : loopWordsFrom before col (x :: rest) =
    (Cursor.loopWord? ⟨before, col, x :: rest⟩).toList ++
      loopWordsFrom (some x) (col + x.utf8Size) rest := by
  rw [loopWordsFrom, Cursor.allFrom, List.filterMap_cons]
  cases Cursor.loopWord? ⟨before, col, x :: rest⟩ <;> rfl

end Line

namespace Pattern

/-! ## Matches of loop words -/

/-- A match takes nothing in front of its word at the start of a line, and one character that is in
no word elsewhere. -/
inductive Leads (c : Cursor) : Cursor → Prop where
  | start (hbefore : c.before = none) : Leads c c
  | next {x : Char} {rest : Line} (hrest : c.rest = x :: rest) (hx : isWord x = false) :
    Leads c ⟨some x, c.col + x.utf8Size, rest⟩

theorem Leads.path {c d : Cursor} (h : Leads c d) :
    Path (alt lineStart (one fun x => !isWord x)) c d [] := by
  cases h with
  | start hbefore =>
    refine .preferred (.step (n := 0) ?_ rfl)
    rw [Step.guarded, Cursor.isLineStart, hbefore]
    rfl
  | @next x rest hrest hx =>
    refine .other (.step (n := 1) ?_ ?_)
    · rw [Step.one, Cursor.next?, hrest, List.head?_cons, Option.any_some, hx]
      rfl
    · rw [Cursor.forward?, hrest]
      rfl

theorem path_words {c : Cursor} {w : String} {rest : Line} (hw : w ∈ ["while", "do"])
    (hrest : c.rest = w.toList ++ rest) : ∃ d, Path (words ["while", "do"]) c d [] ∧ d.rest = rest := by
  obtain ⟨d, hd, hdRest⟩ := Cursor.exists_forward? hrest
  refine ⟨d, .step (n := w.toList.length) ?_ hd, hdRest⟩
  have hprefix : w.toList <+: c.rest := ⟨rest, hrest.symm⟩
  have hfind := find?_loopWord (p := fun v => v.isPrefixOf c.rest) hw hprefix
    (List.isPrefixOf_iff_prefix.mpr hprefix) fun v hv => List.isPrefixOf_iff_prefix.mp hv
  rw [Step.textOf, hfind, Option.map_some]

theorem path_nonword {c : Cursor} (h : c.rest.head?.any isWord = false) :
    ∃ d, Path (alt (one fun x => !isWord x) lineEnd) c d [] := by
  obtain ⟨before, col, rest⟩ := c
  cases rest with
  | nil => exact ⟨_, .other (.step (n := 0) rfl rfl)⟩
  | cons x rest =>
    have hx : isWord x = false := by simpa using h
    exact ⟨⟨some x, col + x.utf8Size, rest⟩,
      .preferred (.step (n := 1) (by simp [Step.one, Cursor.next?, hx]) rfl)⟩

theorem exists_foundAt_loopWord {c d : Cursor} {word : Capture} (h : Leads c d)
    (hword : d.loopWord? = some word) : ∃ f, loopWord.foundAt c = some f := by
  obtain ⟨-, w, hw, rest, hrest, hnext, -⟩ := Cursor.loopWord?_eq_some_iff.mp hword
  obtain ⟨e, he, rfl⟩ := path_words hw hrest
  obtain ⟨e', he'⟩ := path_nonword hnext
  exact exists_foundAt_of_path (.seq h.path (.seq (.seq .mark (.seq he .mark)) he'))

theorem exists_leads_of_foundAt {c : Cursor} {f : Found} (h : loopWord.foundAt c = some f) :
    ∃ d, Leads c d ∧ d.loopWord? = f.part? .keyword := by
  rw [loopWord_eq] at h
  obtain ⟨front, w, back, rest, hw, hfront, hback, hrest, -, hpart, -⟩ := exists_framed h
  have hnext : (back ++ rest).head?.any isWord = false := by
    rcases hback with ⟨rfl, rfl⟩ | ⟨x, rfl, hx⟩
    · rfl
    · simpa using hx
  rcases hfront with ⟨rfl, hbefore⟩ | ⟨x, rfl, hx⟩
  · refine ⟨c, .start hbefore, ?_⟩
    rw [hpart, Cursor.loopWord?_eq_some_iff, hbefore]
    exact ⟨rfl, w, hw, back ++ rest, hrest, hnext, rfl⟩
  · have hx : isWord x = false := by simpa using hx
    refine ⟨_, .next hrest hx, ?_⟩
    rw [hpart, Cursor.loopWord?_eq_some_iff]
    exact ⟨hx, w, hw, back ++ rest, rfl, hnext, rfl⟩

theorem Leads.unique {c d e : Cursor} {u v : Capture} (hd : Leads c d) (he : Leads c e)
    (hu : d.loopWord? = some u) (hv : e.loopWord? = some v) : d = e := by
  obtain ⟨before, col, rest⟩ := c
  cases hd with
  | start =>
    cases he with
    | start => rfl
    | next hrest hx =>
      obtain rfl := hrest
      rw [Cursor.isWord_of_loopWord? hu] at hx
      cases hx
  | next hrest hx =>
    cases he with
    | start =>
      obtain rfl := hrest
      rw [Cursor.isWord_of_loopWord? hv] at hx
      cases hx
    | next hrest' =>
      obtain ⟨rfl, rfl⟩ := List.cons.inj (hrest.symm.trans hrest')
      rfl

theorem keyword_foundAt {c d : Cursor} {word : Capture} (h : Leads c d)
    (hword : d.loopWord? = some word) :
    (loopWord.foundAt c).bind (·.part? .keyword) = some word := by
  obtain ⟨f, hf⟩ := exists_foundAt_loopWord h hword
  obtain ⟨e, he, hpart⟩ := exists_leads_of_foundAt hf
  obtain ⟨front, w, back, rest, -, -, -, -, -, hkeyword, -⟩ := exists_framed hf
  rw [hkeyword] at hpart
  rw [hf, Option.bind_some, hkeyword, ← hpart, ← h.unique he hword hpart, hword]

theorem keyword_foundAt_eq_none {c : Cursor} (h : ∀ d, Leads c d → d.loopWord? = none) :
    (loopWord.foundAt c).bind (·.part? .keyword) = none := by
  cases hf : loopWord.foundAt c with
  | none => rfl
  | some f =>
    obtain ⟨d, hd, hpart⟩ := exists_leads_of_foundAt hf
    rw [Option.bind_some, ← hpart, h d hd]

/-- A match at the start of a line has the word there or the one behind the first character, and
every other match has the word behind its first character. -/
theorem toList_keyword_foundAt (before : Option Char) (col : Nat) (x : Char) (rest : Line) :
    ((loopWord.foundAt ⟨before, col, x :: rest⟩).bind (·.part? .keyword)).toList =
      (if before = none then (Cursor.loopWord? ⟨before, col, x :: rest⟩).toList else []) ++
        (Cursor.loopWord? ⟨some x, col + x.utf8Size, rest⟩).toList := by
  cases hnext : Cursor.loopWord? ⟨some x, col + x.utf8Size, rest⟩ with
  | some word =>
    have hx : isWord x = false := (Cursor.loopWord?_eq_some_iff.mp hnext).1
    rw [keyword_foundAt (.next rfl hx) hnext, Cursor.loopWord?_eq_none hx]
    simp
  | none =>
    have hnone : (∀ h : before = none, Cursor.loopWord? ⟨before, col, x :: rest⟩ = none) →
        (loopWord.foundAt ⟨before, col, x :: rest⟩).bind (·.part? .keyword) = none := by
      refine fun hhere => keyword_foundAt_eq_none fun d hd => ?_
      cases hd with
      | start hbefore => exact hhere hbefore
      | next hrest =>
        obtain ⟨rfl, rfl⟩ := List.cons.inj hrest
        exact hnext
    cases before with
    | some y => rw [hnone fun h => (by cases h), if_neg (by simp)]; rfl
    | none =>
      rw [if_pos rfl]
      cases hhere : Cursor.loopWord? ⟨none, col, x :: rest⟩ with
      | none => rw [hnone fun _ => hhere]; rfl
      | some word => rw [keyword_foundAt (.start rfl) hhere]; rfl

theorem foundFrom_nil (before : Option Char) (col : Nat) : loopWord.foundFrom before col [] = [] := by
  have hnil := quoteless_loop.foundAt_nil before col
  rw [← loopWord_eq] at hnil
  rw [foundFrom, Cursor.allFrom, List.filterMap_cons, hnil]
  rfl

theorem keywords_foundFrom_cons (before : Option Char) (col : Nat) (x : Char) (rest : Line) :
    (loopWord.foundFrom before col (x :: rest)).filterMap (·.part? .keyword) =
      ((loopWord.foundAt ⟨before, col, x :: rest⟩).bind (·.part? .keyword)).toList ++
        (loopWord.foundFrom (some x) (col + x.utf8Size) rest).filterMap (·.part? .keyword) := by
  rw [foundFrom_cons, List.filterMap_append]
  cases loopWord.foundAt ⟨before, col, x :: rest⟩ with
  | none => rfl
  | some f => cases hf : f.part? .keyword <;> simp [hf]

theorem loopWordsFrom_some (y : Char) (col : Nat) (line : Line) :
    line.loopWordsFrom (some y) col = (Cursor.loopWord? ⟨some y, col, line⟩).toList ++
      (loopWord.foundFrom (some y) col line).filterMap (·.part? .keyword) := by
  induction line generalizing y col with
  | nil => rw [Line.loopWordsFrom_nil, Cursor.loopWord?_nil, foundFrom_nil]; rfl
  | cons x rest ih =>
    rw [Line.loopWordsFrom_cons, ih, keywords_foundFrom_cons, toList_keyword_foundAt,
      if_neg (Option.some_ne_none y), List.nil_append]

theorem keywords_foundFrom (line : Line) :
    (loopWord.foundFrom none 0 line).filterMap (·.part? .keyword) = line.loopWords := by
  cases line with
  | nil => rw [Line.loopWords, Line.loopWordsFrom_nil, foundFrom_nil]; rfl
  | cons x rest =>
    rw [Line.loopWords, Line.loopWordsFrom_cons, loopWordsFrom_some, keywords_foundFrom_cons,
      toList_keyword_foundAt, if_pos rfl, List.append_assoc]

end Pattern

/-! ## Words that are missed -/

/-- One character stands between the two words. -/
def Capture.Crowds (line : Line) (u v : Capture) : Prop := (line.slice u.stop v.start).length = 1

instance (line : Line) (u v : Capture) : Decidable (u.Crowds line v) :=
  inferInstanceAs (Decidable (_ = _))

namespace Pattern

/-- Where a character outside words stands in a match behind its first character, it is the last one
of the match. -/
theorem eq_last_of_framed {front back taken more : Line} {w : String} {x y : Char}
    {edge edge' : Prop} (hw : w ∈ ["while", "do"])
    (hfront : AtMostOne (fun c => !isWord c) edge front)
    (hback : AtMostOne (fun c => !isWord c) edge' back) (hy : isWord y = false)
    (h : front ++ w.toList ++ back = x :: taken ++ y :: more) :
    x :: taken = front ++ w.toList ∧ back = [y] := by
  have hnotIn : ∀ z more, w.toList = z ++ y :: more → False := by
    intro z more hz
    rw [isWord_of_mem_loopWord hw (by rw [hz]; simp)] at hy
    cases hy
  rcases List.append_eq_append_iff.mp h with ⟨z, hz, hback'⟩ | ⟨z, hz, hback'⟩
  · -- The place is in the character behind the word.
    rcases hback with ⟨rfl, -⟩ | ⟨y', rfl, -⟩
    · simp at hback'
    · cases z with
      | nil =>
        obtain ⟨rfl, rfl⟩ := List.cons.inj hback'
        exact ⟨by rw [hz, List.append_nil], rfl⟩
      | cons y'' z => simp at hback'
  · cases z with
    | nil =>
      rcases hback with ⟨rfl, -⟩ | ⟨y', rfl, -⟩
      · simp at hback'
      · obtain ⟨rfl, rfl⟩ := List.cons.inj hback'
        exact ⟨by rw [hz, List.append_nil], rfl⟩
    | cons y' z =>
      -- The place is in the word.
      obtain ⟨rfl, -⟩ := List.cons.inj hback'
      rcases hfront with ⟨rfl, -⟩ | ⟨x', rfl, -⟩
      · exact (hnotIn (x :: taken) z hz).elim
      · exact (hnotIn taken z (List.cons.inj hz).2).elim

theorem stop_le_or_crowds {front rest : Line} {before : Option Char} {x : Char} {g f : Found}
    (hg : loopWord.foundAt ⟨before, Line.size front, x :: rest⟩ = some g)
    (hf : f ∈ loopWord.foundFrom (some x) (Line.size front + x.utf8Size) rest) :
    g.stop ≤ f.start ∨ ∃ u v, g.part? .keyword = some u ∧ f.part? .keyword = some v ∧
      u.Crowds (front ++ x :: rest) v := by
  obtain ⟨c, hc, hfAt⟩ := List.mem_filterMap.mp hf
  obtain ⟨taken, hrest, hcol, hbefore⟩ := Cursor.exists_front_of_mem_allFrom hc
  rw [loopWord_eq] at hg hfAt
  obtain ⟨edge, w, back, behind, hw, hedge, hback, hgRest, -, hu, hgStop⟩ := exists_framed hg
  obtain ⟨edge', w', back', behind', -, hedge', -, hfRest, hfStart, hv, -⟩ := exists_framed hfAt
  rcases hedge' with ⟨-, hnone⟩ | ⟨y, rfl, hy⟩
  · rw [hbefore] at hnone
    cases (Option.or_eq_none_iff.mp hnone).2
  have hy : isWord y = false := by simpa using hy
  have hline : (edge ++ w.toList ++ back) ++ behind =
      (x :: taken) ++ y :: (w'.toList ++ (back' ++ behind')) := by
    rw [List.append_assoc, List.append_assoc, ← hgRest, hrest, hfRest]
    rfl
  rcases Line.size_le_or_exists_longer hline with hle | ⟨y', more, hmore, hbehind⟩
  · left
    simp only [Line.size_append, Line.size] at hle
    rw [hgStop, hfStart, hcol]
    simp only
    omega
  · -- The later match starts with the last character of the earlier one.
    obtain ⟨rfl, -⟩ := List.cons.inj hbehind
    obtain ⟨hword, rfl⟩ := eq_last_of_framed hw hedge hback hy hmore
    have hsize := congrArg Line.size hword
    simp only [Line.size_append, Line.size] at hsize
    have hslice := Line.slice_append (front ++ x :: taken) [y] (w'.toList ++ (back' ++ behind'))
    have hstop : Line.size front + Line.size edge + Line.size w.toList =
        Line.size (front ++ x :: taken) := by
      rw [Line.size_append, Line.size]
      omega
    have hnext : c.col + Line.size [y] = Line.size (front ++ x :: taken) + Line.size [y] := by
      rw [hcol, Line.size_append, Nat.add_assoc (Line.size front)]
      rfl
    refine .inr ⟨_, _, hu, hv, ?_⟩
    rw [Capture.Crowds, hstop, hnext, hrest, hfRest]
    simp only [List.append_assoc, List.cons_append, List.nil_append] at hslice ⊢
    rw [hslice]
    rfl

theorem pairwise_foundFrom (front : Line) (before : Option Char) (line : Line) :
    (loopWord.foundFrom before (Line.size front) line).Pairwise fun g f =>
      g.stop ≤ f.start ∨ ∃ u v, g.part? .keyword = some u ∧ f.part? .keyword = some v ∧
        u.Crowds (front ++ line) v := by
  induction line generalizing front before with
  | nil => rw [foundFrom_nil]; exact .nil
  | cons x rest ih =>
    have htail := ih (front ++ [x]) (some x)
    rw [Line.size_append, List.append_assoc] at htail
    rw [foundFrom_cons]
    refine List.pairwise_append.mpr ⟨?_, htail, fun g hg f hf => ?_⟩
    · cases loopWord.foundAt ⟨before, Line.size front, x :: rest⟩ <;> simp
    · exact stop_le_or_crowds (Option.mem_toList.mp hg) hf

/-- The words that matter are all found where no word crowds one of them. -/
theorem filterMap_findAll_loopWord {α : Type} {line : Line} (mark : Capture → Option α)
    (hroomy : ∀ u ∈ line.loopWords, ∀ v ∈ line.loopWords, (mark v).isSome = true →
      ¬u.Crowds line v) :
    ((loopWord.findAll line).filterMap (·.part? .keyword)).filterMap mark =
      line.loopWords.filterMap mark := by
  let keep : Found → Bool := fun f => ((f.part? .keyword).bind mark).isSome
  have hkeep (items : List Found) : (items.filterMap (·.part? .keyword)).filterMap mark =
      ((items.filter keep).filterMap (·.part? .keyword)).filterMap mark := by
    induction items with
    | nil => rfl
    | cons f items ih =>
      cases hf : f.part? .keyword with
      | none => simp [keep, hf, ih]
      | some word => cases hword : mark word <;> simp [keep, hf, hword, ih]
  have hmem {f : Found} {u : Capture} (hf : f ∈ loopWord.foundFrom none 0 line)
      (hu : f.part? .keyword = some u) : u ∈ line.loopWords := by
    rw [← keywords_foundFrom]
    exact List.mem_filterMap.mpr ⟨f, hf, hu⟩
  have hclear : (loopWord.foundFrom none 0 line).Pairwise fun g f =>
      keep f = true → g.stop ≤ f.start := by
    refine List.Pairwise.imp_of_mem ?_ (pairwise_foundFrom [] none line)
    rintro g f hg hf (hle | ⟨u, v, hu, hv, hcrowds⟩) hcounts
    · exact hle
    · refine absurd hcrowds (hroomy u (hmem hg hu) v (hmem hf hv) ?_)
      simpa [keep, hv] using hcounts
  have hall : loopWord.findAll line = apart 0 (loopWord.foundFrom none 0 line) := findAll_eq ..
  have hends : ∀ f ∈ loopWord.foundFrom none 0 line, f.start ≤ f.stop := fun f hf =>
    start_le_stop_of_mem_foundFrom hf
  have hkept : ((loopWord.foundFrom none 0 line).filter keep).Pairwise fun g f =>
      g.stop ≤ f.start := List.pairwise_filter.mpr (hclear.imp fun h _ hf => h hf)
  calc ((loopWord.findAll line).filterMap (·.part? .keyword)).filterMap mark
      = (((loopWord.findAll line).filter keep).filterMap (·.part? .keyword)).filterMap mark :=
        hkeep _
    _ = (((loopWord.foundFrom none 0 line).filter keep).filterMap
          (·.part? .keyword)).filterMap mark := by
      rw [hall, filter_apart 0 (hclear.imp fun h _ hf => h hf) hends,
        apart_eq_self (fun f _ => Nat.zero_le _) hkept]
    _ = line.loopWords.filterMap mark := by rw [← hkeep, keywords_foundFrom]

end Pattern

/-! ## Parts of a line -/

def Capture.shift (n : Nat) (word : Capture) : Capture := ⟨n + word.start, n + word.stop⟩

theorem Cursor.loopWord?_shift (before : Option Char) (n col : Nat) (rest : Line) :
    loopWord? ⟨before, n + col, rest⟩ = (loopWord? ⟨before, col, rest⟩).map (·.shift n) := by
  rw [loopWord?, loopWord?]
  split
  · rfl
  · rw [Option.map_map]
    refine congrArg₂ Option.map (funext fun w => ?_) rfl
    rw [Function.comp, Capture.shift, Nat.add_assoc]

namespace Line

variable {front back part : Line} {before : Option Char} {col n start stop : Nat}

theorem loopWordsFrom_shift (before : Option Char) (n col : Nat) (line : Line) :
    line.loopWordsFrom before (n + col) = (line.loopWordsFrom before col).map (·.shift n) := by
  induction line generalizing before col with
  | nil => simp
  | cons x rest ih =>
    rw [loopWordsFrom_cons, loopWordsFrom_cons, Nat.add_assoc, ih, Cursor.loopWord?_shift,
      List.map_append]
    cases Cursor.loopWord? ⟨before, col, x :: rest⟩ <;> rfl

theorem le_start_of_mem_loopWordsFrom {line : Line} {word : Capture}
    (h : word ∈ line.loopWordsFrom before col) : col ≤ word.start := by
  induction line generalizing before col with
  | nil => simp at h
  | cons x rest ih =>
    rw [loopWordsFrom_cons, List.mem_append, Option.mem_toList] at h
    rcases h with h | h
    · obtain ⟨-, w, -, rest', -, -, rfl⟩ := Cursor.loopWord?_eq_some_iff.mp h
      exact Nat.le_refl _
    · exact Nat.le_trans (Nat.le_add_right _ _) (ih h)

theorem loopWordsFrom_before (b b' : Option Char) (col : Nat) {part : Line}
    (h : part.head?.any isWord = false) : part.loopWordsFrom b col = part.loopWordsFrom b' col := by
  cases part with
  | nil => rw [loopWordsFrom_nil, loopWordsFrom_nil]
  | cons x rest =>
    rw [loopWordsFrom_cons, loopWordsFrom_cons, Cursor.loopWord?_eq_none h,
      Cursor.loopWord?_eq_none h]

theorem filter_loopWordsFrom (before : Option Char) (col : Nat) (front part : Line) :
    ((front ++ part).loopWordsFrom before col).filter (decide <| col + size front ≤ ·.start) =
      part.loopWordsFrom (front.getLast?.or before) (col + size front) := by
  induction front generalizing before col with
  | nil =>
    rw [size, Nat.add_zero]
    exact List.filter_eq_self.mpr fun word hword =>
      decide_eq_true (le_start_of_mem_loopWordsFrom hword)
  | cons x front ih =>
    have hpos := Char.utf8Size_pos x
    have hhere : (Cursor.loopWord? ⟨before, col, x :: (front ++ part)⟩).toList.filter
        (decide <| col + (x.utf8Size + size front) ≤ ·.start) = [] := by
      refine List.filter_eq_nil_iff.mpr fun word hword hle => ?_
      obtain ⟨-, w, -, rest, -, -, rfl⟩ :=
        Cursor.loopWord?_eq_some_iff.mp (Option.mem_toList.mp hword)
      have hle := of_decide_eq_true hle
      simp only at hle
      omega
    have hlast : (x :: front).getLast?.or before = front.getLast?.or (some x) := by
      rw [List.getLast?_cons]
      cases front.getLast? <;> rfl
    rw [List.cons_append, loopWordsFrom_cons, List.filter_append, size, hhere, List.nil_append,
      ← Nat.add_assoc, ih, hlast]

theorem filter_loopWords (hseam : front = [] ∨ part.head?.any isWord = false) :
    (front ++ part).loopWords.filter (decide <| size front ≤ ·.start) =
      part.loopWords.map (·.shift (size front)) := by
  have hfilter := filter_loopWordsFrom none 0 front part
  rw [Nat.zero_add] at hfilter
  rw [loopWords, hfilter, loopWords, ← loopWordsFrom_shift, Nat.add_zero]
  rcases hseam with rfl | hseam
  · rfl
  · exact loopWordsFrom_before _ _ _ hseam

end Line

end ScopeLint
