import ScopeLint.Proofs.Extent
import ScopeLint.Region.OfCode

/-!
# What the searches for structure look at

A search goes through the lines outside macro definitions. On each it reads the blanked line, the
extents that start there, and which positions are covered. Where two codes have these in common,
every search has one result.
-/

namespace ScopeLint

namespace Region

/-! ## Lines side by side -/

/-- `f` has on the lines `xs`, the first of them at `index`, the results that `g` has on `ys`; the
lines that are passed over do not count. -/
def SideBySide {α : Type} (passed : Nat → Bool) (f g : Nat → Line → α) (index : Nat)
    (xs ys : List Line) : Prop :=
  ∀ i x y, passed (index + i) = false → xs[i]? = some x → ys[i]? = some y →
    f (index + i) x = g (index + i) y

namespace SideBySide

variable {α : Type} {passed : Nat → Bool} {f g : Nat → Line → α} {index : Nat} {x y : Line}
  {xs ys : List Line}

theorem head (h : SideBySide passed f g index (x :: xs) (y :: ys))
    (hindex : passed index = false) : f index x = g index y :=
  h 0 x y hindex rfl rfl

theorem tail (h : SideBySide passed f g index (x :: xs) (y :: ys)) :
    SideBySide passed f g (index + 1) xs ys := by
  intro i x' y' hpassed hx hy
  rw [Nat.add_right_comm] at hpassed ⊢
  exact h (i + 1) x' y' hpassed hx hy

theorem drop (h : SideBySide passed f g 0 xs ys) (n : Nat) :
    SideBySide passed f g n (xs.drop n) (ys.drop n) := by
  intro i x y hpassed hx hy
  rw [List.getElem?_drop] at hx hy
  have hline := h (n + i) x y
  rw [Nat.zero_add] at hline
  exact hline hpassed hx hy

end SideBySide

variable {a b : Code} {index : Nat} {xs ys : List Line}

theorem outsideMacros_congr (hmacros : a.inMacro = b.inMacro)
    {f g : Nat → Line → Except Unbalanced (Option Region)} {x y : Line}
    (h : a.inMacro index = false → f index x = g index y) :
    outsideMacros a f index x = outsideMacros b g index y := by
  unfold outsideMacros
  rw [← hmacros]
  split
  · rfl
  · rename_i hout
    exact h (Bool.eq_false_iff.mpr hout)

theorem sweep_congr (hmacros : a.inMacro = b.inMacro)
    {f g : Nat → Line → Except Unbalanced (Option Region)} (hlength : xs.length = ys.length)
    (h : SideBySide a.inMacro f g index xs ys) :
    sweep (outsideMacros a f) index xs = sweep (outsideMacros b g) index ys := by
  induction xs generalizing ys index with
  | nil =>
    obtain rfl := List.length_eq_zero_iff.mp hlength.symm
    rfl
  | cons x xs ih =>
    cases ys with
    | nil => cases hlength
    | cons y ys =>
      rw [sweep, sweep, outsideMacros_congr hmacros h.head, ih (Nat.succ.inj hlength) h.tail]

theorem enumsFrom_congr (hmacros : a.inMacro = b.inMacro) (resume : Nat)
    (hlength : xs.length = ys.length)
    (h : SideBySide a.inMacro (enumOn a) (enumOn b) index xs ys) :
    enumsFrom a resume index xs = enumsFrom b resume index ys := by
  induction xs generalizing ys resume index with
  | nil =>
    obtain rfl := List.length_eq_zero_iff.mp hlength.symm
    rfl
  | cons x xs ih =>
    cases ys with
    | nil => cases hlength
    | cons y ys =>
      have hrest : ∀ resume, enumsFrom a resume (index + 1) xs =
          enumsFrom b resume (index + 1) ys :=
        fun resume => ih resume (Nat.succ.inj hlength) h.tail
      rw [enumsFrom, enumsFrom, outsideMacros_congr hmacros h.head]
      simp only [hrest]

def loopStep (code : Code) (nested offset index : Nat) (line : Line) : LoopStep :=
  let part := (line.from? offset).getD []
  readLoopWords code index offset part nested
    ((Pattern.loopWord.findAll part).filterMap (·.part? .keyword))

theorem loopEndFrom_cons (code : Code) (nested index offset : Nat) (line : Line)
    (rest : List Line) : loopEndFrom code nested index offset (line :: rest) =
      if code.inMacro index then loopEndFrom code nested (index + 1) 0 rest
      else
        match loopStep code nested offset index line with
        | .closed statement => some statement
        | .inside nested => loopEndFrom code nested (index + 1) 0 rest := by
  rw [loopEndFrom]
  rfl

theorem loopEndFrom_congr (hmacros : a.inMacro = b.inMacro) (nested : Nat)
    (hlength : xs.length = ys.length)
    (h : ∀ nested, SideBySide a.inMacro (loopStep a nested 0) (loopStep b nested 0) index xs ys) :
    loopEndFrom a nested index 0 xs = loopEndFrom b nested index 0 ys := by
  induction xs generalizing ys nested index with
  | nil =>
    obtain rfl := List.length_eq_zero_iff.mp hlength.symm
    rfl
  | cons x xs ih =>
    cases ys with
    | nil => cases hlength
    | cons y ys =>
      have hrest : ∀ nested, loopEndFrom a nested (index + 1) 0 xs =
          loopEndFrom b nested (index + 1) 0 ys :=
        fun nested => ih nested (Nat.succ.inj hlength) fun nested => (h nested).tail
      rw [loopEndFrom_cons, loopEndFrom_cons, ← hmacros]
      split
      · exact hrest nested
      · rename_i hout
        rw [(h nested).head (Bool.eq_false_iff.mpr hout)]
        simp only [hrest]

/-- The line of the `do` is read from behind the word, all lines after it from their start. -/
theorem loopEnd_congr (hmacros : a.inMacro = b.inMacro)
    (hlength : a.lines.length = b.lines.length) {afterDo : Position}
    (hfirst : ∀ nested x y, a.inMacro afterDo.line = false → a.lines[afterDo.line]? = some x →
      b.lines[afterDo.line]? = some y → loopStep a nested afterDo.col afterDo.line x =
        loopStep b nested afterDo.col afterDo.line y)
    (hrest : ∀ nested,
      SideBySide a.inMacro (loopStep a nested 0) (loopStep b nested 0) 0 a.lines b.lines) :
    loopEnd a afterDo = loopEnd b afterDo := by
  have hfrom : loopEndFrom a 0 afterDo.line afterDo.col (a.lines.drop afterDo.line) =
      loopEndFrom b 0 afterDo.line afterDo.col (b.lines.drop afterDo.line) := by
    have hbehind : ∀ nested, loopEndFrom a nested (afterDo.line + 1) 0
        (a.lines.drop (afterDo.line + 1)) = loopEndFrom b nested (afterDo.line + 1) 0
          (b.lines.drop (afterDo.line + 1)) := by
      intro nested
      refine loopEndFrom_congr hmacros nested ?_ fun nested => (hrest nested).drop _
      rw [List.length_drop, List.length_drop, hlength]
    by_cases hline : afterDo.line < a.lines.length
    · have hline' : afterDo.line < b.lines.length := hlength ▸ hline
      rw [List.drop_eq_getElem_cons hline, List.drop_eq_getElem_cons hline', loopEndFrom_cons,
        loopEndFrom_cons, ← hmacros]
      split
      · exact hbehind 0
      · rename_i hout
        rw [hfirst 0 _ _ (Bool.eq_false_iff.mpr hout) (List.getElem?_eq_getElem hline)
          (List.getElem?_eq_getElem hline')]
        simp only [hbehind]
    · rw [List.drop_eq_nil_of_le (by omega), List.drop_eq_nil_of_le (by omega)]
      rfl
  unfold loopEnd
  rw [hfrom]

end Region

open Region

namespace Code

/-! ## Line by line -/

/-- Two codes with the same results on every line outside their macros. -/
structure Agree (a b : Code) : Prop where
  length : a.lines.length = b.lines.length
  inMacro : a.inMacro = b.inMacro
  namespaceOn : SideBySide a.inMacro (namespaceOn a) (namespaceOn b) 0 a.lines b.lines
  enumOn : SideBySide a.inMacro (enumOn a) (enumOn b) 0 a.lines b.lines
  classOn : SideBySide a.inMacro (classOn a) (classOn b) 0 a.lines b.lines
  functionOn : SideBySide a.inMacro (functionOn a) (functionOn b) 0 a.lines b.lines
  variableOn : SideBySide a.inMacro (variableOn a) (variableOn b) 0 a.lines b.lines
  conditionalOn : SideBySide a.inMacro (conditionalOn a) (conditionalOn b) 0 a.lines b.lines

variable {a b : Code}

theorem Agree.search (h : a.Agree b) {search : Code → Except Unbalanced (List Region)}
    (hsearch : search ∈ searches) : search a = search b := by
  have hsweep {f g : Nat → Line → Except Unbalanced (Option Region)}
      (hline : SideBySide a.inMacro f g 0 a.lines b.lines) :
      sweep (outsideMacros a f) 0 a.lines = sweep (outsideMacros b g) 0 b.lines :=
    sweep_congr h.inMacro h.length hline
  simp only [searches, List.mem_cons, List.not_mem_nil, or_false] at hsearch
  rcases hsearch with rfl | rfl | rfl | rfl | rfl | rfl
  · exact hsweep h.namespaceOn
  · exact enumsFrom_congr h.inMacro 0 h.length h.enumOn
  · exact hsweep h.classOn
  · exact hsweep h.functionOn
  · exact hsweep fun i x y hi hx hy => congrArg Except.ok (h.variableOn i x y hi hx hy)
  · exact hsweep h.conditionalOn

/-! ## The same bytes -/

theorem bytesAt_congr (h : a.bytes = b.bytes) : a.bytesAt = b.bytesAt := by
  funext start
  unfold bytesAt
  rw [h]

theorem resolve_congr (h : a.bytes = b.bytes) : Extent.resolve a = Extent.resolve b := by
  funext start d
  unfold Extent.resolve
  rw [bytesAt_congr h]

theorem loopStatement?_congr (h : a.bytes = b.bytes) :
    Extent.loopStatement? a = Extent.loopStatement? b := by
  have hnext : Extent.nextCode? a = Extent.nextCode? b := by
    funext start
    unfold Extent.nextCode?
    rw [bytesAt_congr h]
  funext afterWord
  unfold Extent.loopStatement?
  rw [hnext, resolve_congr h]

/-! ## The same lines outside macros -/

theorem sideBySide_of_lines (h : ∀ i, a.inMacro i = false → a.lines[i]? = b.lines[i]?) {α : Type}
    {f g : Nat → Line → α} (hfg : ∀ i line, a.inMacro i = false → f i line = g i line) :
    SideBySide a.inMacro f g 0 a.lines b.lines := by
  intro i x y hi hx hy
  rw [Nat.zero_add] at hi ⊢
  rw [h i hi, hy] at hx
  rw [Option.some.inj hx]
  exact hfg i x hi

theorem variableOn_congr (h : a.inert.covers = b.inert.covers) :
    Region.variableOn a = Region.variableOn b := by
  funext index line
  unfold Region.variableOn
  rw [h]

theorem braced?_congr (hcovers : a.inert.covers = b.inert.covers)
    (hresolve : ∀ start, Extent.resolve a start .braces = Extent.resolve b start .braces)
    {kind : Kind} {name name' : Line} {start : Position}
    (hname : a.inert.covers start = false → name = name') :
    Region.braced? a kind name start = Region.braced? b kind name' start := by
  unfold Region.braced?
  rw [← hcovers, hresolve]
  split
  · rfl
  · rename_i hfree
    rw [hname (Bool.eq_false_iff.mpr hfree)]

/-- Two codes with the same lines, extents and covered positions outside their macros. -/
structure AlikeOutsideMacros (a b : Code) : Prop where
  length : a.lines.length = b.lines.length
  inMacro : a.inMacro = b.inMacro
  line : ∀ i, a.inMacro i = false → a.lines[i]? = b.lines[i]?
  covers : a.inert.covers = b.inert.covers
  resolve : ∀ start, ∀ d ∈ Delimiters.all, Extent.resolve a start d = Extent.resolve b start d
  loopStatement? : ∀ p : Position, a.inMacro p.line = false →
    Extent.loopStatement? a p = Extent.loopStatement? b p

namespace AlikeOutsideMacros

theorem braced? (h : a.AlikeOutsideMacros b) : Region.braced? a = Region.braced? b := by
  funext kind name start
  exact braced?_congr h.covers (fun start => h.resolve start .braces (by decide)) fun _ => rfl

theorem functionOn (h : a.AlikeOutsideMacros b) : Region.functionOn a = Region.functionOn b := by
  funext index line
  unfold Region.functionOn
  simp only [h.covers, h.resolve _ .bracesOrStatement (by decide)]

/-! ### Conditionals -/

theorem readLoopWords (h : a.AlikeOutsideMacros b) {index : Nat} (hindex : a.inMacro index = false)
    (offset : Nat) (rest : Line) (nested : Nat) (words : List Capture) :
    Region.readLoopWords a index offset rest nested words =
      Region.readLoopWords b index offset rest nested words := by
  induction words generalizing nested with
  | nil => rfl
  | cons word more ih =>
    rw [Region.readLoopWords, Region.readLoopWords, h.covers, h.loopStatement? ⟨index, _⟩ hindex]
    simp only [ih]

theorem loopEnd (h : a.AlikeOutsideMacros b) : Region.loopEnd a = Region.loopEnd b := by
  funext afterDo
  refine loopEnd_congr h.inMacro h.length (fun nested x y hout hx hy => ?_) fun nested => ?_
  · rw [h.line _ hout, hy] at hx
    rw [Option.some.inj hx]
    exact h.readLoopWords hout afterDo.col _ nested _
  · exact sideBySide_of_lines h.line fun _ _ hout => h.readLoopWords hout 0 _ nested _

theorem conditionalEnd (h : a.AlikeOutsideMacros b) {index : Nat}
    (hindex : a.inMacro index = false) (line : Line) (keyword : Capture) :
    Region.conditionalEnd a index line keyword = Region.conditionalEnd b index line keyword := by
  unfold Region.conditionalEnd
  simp only [h.loopStatement? ⟨index, keyword.stop⟩ hindex, h.loopEnd,
    h.resolve _ .parentheses (by decide), h.resolve _ .bracesOrStatement (by decide)]

theorem conditionalOn (h : a.AlikeOutsideMacros b) {index : Nat} (hindex : a.inMacro index = false)
    (line : Line) : Region.conditionalOn a index line = Region.conditionalOn b index line := by
  unfold Region.conditionalOn conditionalWord?
  rw [h.covers]
  simp only [h.conditionalEnd hindex]

theorem agree (h : a.AlikeOutsideMacros b) : a.Agree b where
  length := h.length
  inMacro := h.inMacro
  namespaceOn := sideBySide_of_lines h.line fun i line _ => by
    rw [namespaceOn, namespaceOn, h.braced?]
  enumOn := sideBySide_of_lines h.line fun i line _ => by rw [enumOn, enumOn, h.braced?]
  classOn := sideBySide_of_lines h.line fun i line _ => by rw [classOn, classOn, h.braced?]
  functionOn := sideBySide_of_lines h.line fun i line _ => by rw [h.functionOn]
  variableOn := sideBySide_of_lines h.line fun i line _ => by rw [variableOn_congr h.covers]
  conditionalOn := sideBySide_of_lines h.line fun _ line hi => h.conditionalOn hi line

end AlikeOutsideMacros

/-! ## The same lines -/

/-- Two codes that no search for structure tells apart. -/
structure Alike (a b : Code) : Prop where
  lines : a.lines = b.lines
  bytes : a.bytes = b.bytes
  covers : a.inert.covers = b.inert.covers
  inMacro : a.inMacro = b.inMacro

namespace Alike

theorem outsideMacros (h : a.Alike b) : a.AlikeOutsideMacros b where
  length := by rw [h.lines]
  inMacro := h.inMacro
  line i _ := by rw [h.lines]
  covers := h.covers
  resolve start d _ := by rw [resolve_congr h.bytes]
  loopStatement? p _ := by rw [loopStatement?_congr h.bytes]

theorem search (h : a.Alike b) {search : Code → Except Unbalanced (List Region)}
    (hsearch : search ∈ searches) : search a = search b :=
  h.outsideMacros.agree.search hsearch

end Alike

end Code

end ScopeLint
