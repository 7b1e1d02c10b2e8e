import ScopeLint.Proofs.Code.Append
import ScopeLint.Region.OfCode

/-!
# Searches in appended lines

An extent that closes in front of the seam closes there whatever follows, and one that starts behind
the seam does not see what comes first. So each search that goes on line by line finds in appended
lines what it finds on each side.
-/

namespace ScopeLint

/-- A result further down, given how what is found moves. -/
def downResult {α : Type} (n : Nat) (down : α → α) : Except Unbalanced α → Except Unbalanced α
  | .ok found => .ok (down found)
  | .error e => .error (e.down n)

/-- What the first finds, the second finds as well; nothing is said where the first fails. -/
def Stays {α : Type} (x y : Except Unbalanced α) : Prop := ∀ a, x = .ok a → y = .ok a

theorem Stays.refl {α : Type} (x : Except Unbalanced α) : Stays x x := fun _ h => h

theorem Stays.map {α β : Type} {x y : Except Unbalanced α} (h : Stays x y) (f : α → β) :
    Stays (x.map f) (y.map f) := by
  rintro b hb
  cases x with
  | error e => cases hb
  | ok a =>
    rw [h a rfl]
    exact hb

/-! ## Reading on -/

namespace Extent

def Reading.down (n : Nat) : Reading → Reading
  | .closed stop => .closed (stop.down n)
  | .tooDeep line => .tooDeep (line + n)
  | .unclosed => .unclosed

theorem read_append {d : Delimiters} {depth : Nat} {bytes : List CodeByte}
    (h : read d depth bytes ≠ .unclosed) (more : List CodeByte) :
    read d depth (bytes ++ more) = read d depth bytes := by
  fun_induction read d depth bytes with
  | case1 => exact absurd rfl h
  | case2 b rest hopening ih => rw [List.cons_append, read, if_pos hopening, ih h]
  | case3 b rest hopening hstatement =>
    rw [List.cons_append, read, if_neg hopening, if_pos hstatement]
  | case4 b rest hopening hstatement ih =>
    rw [List.cons_append, read, if_neg hopening, if_neg hstatement, ih h]
  | case5 depth b rest hopening hdeep =>
    rw [List.cons_append, read, if_pos hopening, if_pos hdeep]
  | case6 depth b rest hopening hdeep ih =>
    rw [List.cons_append, read, if_pos hopening, if_neg hdeep, ih h]
  | case7 b rest hopening hclosing =>
    rw [List.cons_append, read, if_neg hopening, if_pos hclosing, if_pos rfl]
  | case8 depth b rest hopening hclosing hdepth ih =>
    rw [List.cons_append, read, if_neg hopening, if_pos hclosing, if_neg hdepth, ih h]
  | case9 depth b rest hopening hclosing ih =>
    rw [List.cons_append, read, if_neg hopening, if_neg hclosing, ih h]

theorem read_down (n : Nat) (d : Delimiters) (depth : Nat) (bytes : List CodeByte) :
    read d depth (bytes.map (·.down n)) = (read d depth bytes).down n := by
  fun_induction read d depth bytes with
  | case1 depth => cases depth <;> rfl
  | case2 b rest hopening ih => rw [List.map_cons, read, CodeByte.down_byte, if_pos hopening, ih]
  | case3 b rest hopening hstatement =>
    rw [List.map_cons, read, CodeByte.down_byte, if_neg hopening, if_pos hstatement]
    rfl
  | case4 b rest hopening hstatement ih =>
    rw [List.map_cons, read, CodeByte.down_byte, if_neg hopening, if_neg hstatement, ih]
  | case5 depth b rest hopening hdeep =>
    rw [List.map_cons, read, CodeByte.down_byte, if_pos hopening, if_pos hdeep]
    rfl
  | case6 depth b rest hopening hdeep ih =>
    rw [List.map_cons, read, CodeByte.down_byte, if_pos hopening, if_neg hdeep, ih]
  | case7 b rest hopening hclosing =>
    rw [List.map_cons, read, CodeByte.down_byte, if_neg hopening, if_pos hclosing, if_pos rfl]
    rfl
  | case8 depth b rest hopening hclosing hdepth ih =>
    rw [List.map_cons, read, CodeByte.down_byte, if_neg hopening, if_pos hclosing, if_neg hdepth,
      ih]
  | case9 depth b rest hopening hclosing ih =>
    rw [List.map_cons, read, CodeByte.down_byte, if_neg hopening, if_neg hclosing, ih]

end Extent

/-- A search of one line has in front of the seam what it has there alone, and behind the seam what
it has there alone, further down. -/
structure SeamSearch (front back whole : Nat → Line → Except Unbalanced (Option Region))
    (n : Nat) : Prop where
  front : ∀ index < n, ∀ line, Stays (front index line) (whole index line)
  back : ∀ index line,
    whole (index + n) line = downResult n (Option.map (·.down n)) (back index line)

namespace Code.Seam

variable {front back whole : Code} {n : Nat} (h : Seam front back whole n)
include h

/-! ## Extents -/

theorem bytesAt_front {start : Position} (hstart : start.line < n) :
    whole.bytesAt start = front.bytesAt start ++ back.bytes.map (·.down n) := by
  have hback : ((back.bytes.map (·.down n)).dropWhile fun x => decide (x.pos < start)) =
      back.bytes.map (·.down n) := by
    cases back.bytes with
    | nil => rfl
    | cons x rest =>
      refine List.dropWhile_cons_of_neg ?_
      simp only [decide_eq_true_eq, CodeByte.down_pos, Position.lt_def, Position.down_line]
      omega
  unfold bytesAt
  rw [h.bytes, List.dropWhile_append, hback]
  split
  · rename_i hempty
    rw [List.isEmpty_iff.mp hempty, List.nil_append]
  · rfl

theorem bytesAt_back (start : Position) :
    whole.bytesAt (start.down n) = (back.bytesAt start).map (·.down n) := by
  have hfront : ∀ x ∈ front.bytes, decide (x.pos < start.down n) = true := fun x hx =>
    decide_eq_true (.inl (Nat.lt_of_lt_of_le (h.line_lt x hx) (Nat.le_add_left _ _)))
  unfold bytesAt
  rw [h.bytes, List.dropWhile_append_of_pos hfront, List.dropWhile_map]
  simp only [Function.comp_def, CodeByte.down_pos, Position.down_lt_down]

theorem resolve_front {start : Position} (hstart : start.line < n) (d : Delimiters) :
    Stays (Extent.resolve front start d) (Extent.resolve whole start d) := by
  intro p hp
  unfold Extent.resolve at hp ⊢
  cases hread : Extent.read d 0 (front.bytesAt start) with
  | closed q =>
    rw [hread] at hp
    rw [h.bytesAt_front hstart, Extent.read_append (by rw [hread]; exact nofun), hread]
    exact hp
  | tooDeep line =>
    rw [hread] at hp
    cases hp
  | unclosed =>
    rw [hread] at hp
    cases hp

theorem line_lt_of_resolve {start p : Position} {d : Delimiters}
    (hp : Extent.resolve front start d = .ok p) : p.line < n := by
  obtain ⟨x, hx, rfl, -⟩ := Extent.exists_of_resolve hp
  exact h.line_lt x ((List.dropWhile_sublist _).subset hx)

theorem resolve_back (start : Position) (d : Delimiters) :
    Extent.resolve whole (start.down n) d =
      downResult n (·.down n) (Extent.resolve back start d) := by
  unfold Extent.resolve
  rw [h.bytesAt_back, Extent.read_down]
  cases Extent.read d 0 (back.bytesAt start) <;> rfl

/-! ## On one line -/

open Region

theorem braced?_front (kind : Kind) (name : Line) {start : Position} (hstart : start.line < n) :
    Stays (braced? front kind name start) (braced? whole kind name start) := by
  unfold braced?
  rw [h.covers_front start hstart]
  split
  · exact Stays.refl _
  · exact (h.resolve_front hstart _).map _

theorem braced?_back (kind : Kind) (name : Line) (start : Position) :
    braced? whole kind name (start.down n) =
      downResult n (Option.map (·.down n)) (braced? back kind name start) := by
  unfold braced?
  rw [h.covers_back, h.resolve_back]
  split
  · rfl
  · cases Extent.resolve back start .braces <;> rfl

theorem namespaceOn : SeamSearch (namespaceOn front) (namespaceOn back) (namespaceOn whole) n where
  front index hindex line := by
    unfold Region.namespaceOn
    cases Pattern.namespaceHead.matchLine line with
    | none => exact Stays.refl _
    | some f => exact h.braced?_front _ _ hindex
  back index line := by
    unfold Region.namespaceOn
    cases Pattern.namespaceHead.matchLine line with
    | none => rfl
    | some f => exact h.braced?_back _ _ ⟨index, _⟩

theorem classOn : SeamSearch (classOn front) (classOn back) (classOn whole) n where
  front index hindex line := by
    unfold Region.classOn
    cases Pattern.classHead.matchLine line with
    | none => exact Stays.refl _
    | some f => exact h.braced?_front _ _ hindex
  back index line := by
    unfold Region.classOn
    cases Pattern.classHead.matchLine line with
    | none => rfl
    | some f => exact h.braced?_back _ _ ⟨index, _⟩

theorem enumOn : SeamSearch (enumOn front) (enumOn back) (enumOn whole) n where
  front index hindex line := by
    unfold Region.enumOn
    cases Pattern.enumHead.matchLine line with
    | none => exact Stays.refl _
    | some f => exact h.braced?_front _ _ hindex
  back index line := by
    unfold Region.enumOn
    cases Pattern.enumHead.matchLine line with
    | none => rfl
    | some f => exact h.braced?_back _ _ ⟨index, _⟩

theorem functionOn : SeamSearch (functionOn front) (functionOn back) (functionOn whole) n where
  front index hindex line := by
    unfold Region.functionOn
    cases (Pattern.functionHead.matchLine line).bind (·.part? .name) with
    | none => exact Stays.refl _
    | some name =>
      simp only [h.covers_front ⟨index, _⟩ hindex]
      split
      · exact Stays.refl _
      · exact (h.resolve_front hindex _).map _
  back index line := by
    unfold Region.functionOn
    cases (Pattern.functionHead.matchLine line).bind (·.part? .name) with
    | none => rfl
    | some name =>
      have hstart := h.covers_back ⟨index, line.firstCodeCol⟩
      have hname := h.covers_back ⟨index, name.start⟩
      have hstop := h.resolve_back ⟨index, name.start⟩ .bracesOrStatement
      simp only [Position.down] at hstart hname hstop
      simp only [hstart, hname, hstop]
      split
      · rfl
      · cases Extent.resolve back ⟨index, name.start⟩ .bracesOrStatement <;> rfl

theorem variableOn : SeamSearch (fun index line => .ok (variableOn front index line))
    (fun index line => .ok (variableOn back index line))
    (fun index line => .ok (variableOn whole index line)) n where
  front index hindex line := by
    unfold Region.variableOn
    simp only [h.covers_front ⟨index, _⟩ hindex]
    exact Stays.refl _
  back index line := by
    unfold Region.variableOn
    cases (Pattern.variableHead.matchLine line).bind (·.part? .name) with
    | none => rfl
    | some name =>
      have hstart := h.covers_back ⟨index, line.firstCodeCol⟩
      have hname := h.covers_back ⟨index, name.start⟩
      simp only [Position.down] at hstart hname
      simp only [hstart, hname]
      split <;> rfl

theorem outsideMacros {f g w : Nat → Line → Except Unbalanced (Option Region)}
    (hsearch : SeamSearch f g w n) :
    SeamSearch (outsideMacros front f) (outsideMacros back g) (outsideMacros whole w) n where
  front index hindex line := by
    unfold Region.outsideMacros
    rw [h.inMacro_front index hindex]
    split
    · exact Stays.refl _
    · exact hsearch.front index hindex line
  back index line := by
    unfold Region.outsideMacros
    rw [h.inMacro_back]
    split
    · rfl
    · exact hsearch.back index line

end Code.Seam

/-! ## Going through the lines -/

namespace Region

def followedBy (found : List Region) (n : Nat) :
    Except Unbalanced (List Region) → Except Unbalanced (List Region)
  | .ok more => .ok (found ++ more.map (·.down n))
  | .error e => .error (e.down n)

variable {n : Nat} {f g w : Nat → Line → Except Unbalanced (Option Region)}

theorem sweep_back (h : SeamSearch f g w n) (index : Nat) (lines : List Line) :
    sweep w (index + n) lines = downResult n (List.map (·.down n)) (sweep g index lines) := by
  induction lines generalizing index with
  | nil => rfl
  | cons line rest ih =>
    have hnext : index + n + 1 = index + 1 + n := by omega
    rw [sweep, sweep, h.back, hnext, ih]
    cases g index line with
    | error e => rfl
    | ok r? =>
      cases r? with
      | none => rfl
      | some r => cases sweep g (index + 1) rest <;> rfl

theorem sweep_front (h : SeamSearch f g w n) {index : Nat} {lines : List Line}
    {found : List Region} (hindex : index + lines.length = n)
    (hfound : sweep f index lines = .ok found) (more : List Line) :
    sweep w index (lines ++ more) = followedBy found n (sweep g 0 more) := by
  induction lines generalizing index found with
  | nil =>
    obtain rfl : index = n := hindex
    obtain rfl := Except.ok.inj hfound
    have hback := sweep_back h 0 more
    rw [Nat.zero_add] at hback
    rw [List.nil_append, hback]
    cases sweep g 0 more <;> rfl
  | cons line rest ih =>
    rw [List.length_cons] at hindex
    have hrest : ∀ {found : List Region}, sweep f (index + 1) rest = .ok found →
        sweep w (index + 1) (rest ++ more) = followedBy found n (sweep g 0 more) :=
      fun hfound => ih (by omega) hfound
    rw [sweep] at hfound
    rw [List.cons_append, sweep]
    cases hline : f index line with
    | error e =>
      rw [hline] at hfound
      cases hfound
    | ok r? =>
      rw [h.front index (by omega) line r? hline]
      rw [hline] at hfound
      cases r? with
      | none => exact hrest hfound
      | some r =>
        obtain ⟨others, hothers, rfl⟩ := exists_of_map_eq_ok hfound
        simp only [hrest hothers]
        cases sweep g 0 more <;> rfl

theorem enumsFrom_of_le {code : Code} {resume resume' index : Nat} (h : resume ≤ index)
    (h' : resume' ≤ index) (lines : List Line) :
    enumsFrom code resume index lines = enumsFrom code resume' index lines := by
  induction lines generalizing index with
  | nil => rfl
  | cons line rest ih =>
    rw [enumsFrom, enumsFrom, if_neg (Nat.not_lt.mpr h), if_neg (Nat.not_lt.mpr h'),
      ih (Nat.le_succ_of_le h) (Nat.le_succ_of_le h')]

end Region

namespace Code.Seam

open Region

variable {front back whole : Code} {n : Nat} (h : Seam front back whole n)
include h

theorem sweep {f g w : Nat → Line → Except Unbalanced (Option Region)}
    (hsearch : SeamSearch f g w n) {found : List Region}
    (hfound : Region.sweep (Region.outsideMacros front f) 0 front.lines = .ok found) :
    Region.sweep (Region.outsideMacros whole w) 0 whole.lines =
      followedBy found n (Region.sweep (Region.outsideMacros back g) 0 back.lines) := by
  rw [h.lines]
  exact sweep_front (h.outsideMacros hsearch) ((Nat.zero_add _).trans h.length) hfound back.lines

theorem enumsFrom_back (resume index : Nat) (lines : List Line) :
    enumsFrom whole (resume + n) (index + n) lines =
      downResult n (List.map (·.down n)) (enumsFrom back resume index lines) := by
  induction lines generalizing resume index with
  | nil => rfl
  | cons line rest ih =>
    have hnext : index + n + 1 = index + 1 + n := by omega
    rw [enumsFrom, enumsFrom, (h.outsideMacros h.enumOn).back, hnext]
    simp only [Nat.add_lt_add_iff_right]
    split
    · exact ih _ _
    · cases Region.outsideMacros back (Region.enumOn back) index line with
      | error e => rfl
      | ok r? =>
        cases r? with
        | none => exact ih _ _
        | some r =>
          have hresume : (r.down n).span.stop.line + 1 = r.span.stop.line + 1 + n :=
            Nat.add_right_comm _ _ _
          simp only [downResult, Option.map_some, hresume, ih]
          cases enumsFrom back (r.span.stop.line + 1) (index + 1) rest <;> rfl

theorem stop_line_lt_of_enumOn {index : Nat} {line : Line} {r : Region}
    (hr : Region.enumOn front index line = .ok (some r)) : r.span.stop.line < n := by
  obtain ⟨f, stop, -, -, hstop, rfl⟩ := exists_of_enumOn hr
  exact h.line_lt_of_resolve hstop

theorem enumsFrom_front {resume index : Nat} {lines : List Line} {found : List Region}
    (hindex : index + lines.length = n) (hresume : resume ≤ n)
    (hfound : enumsFrom front resume index lines = .ok found) (more : List Line) :
    enumsFrom whole resume index (lines ++ more) =
      followedBy found n (enumsFrom back 0 0 more) := by
  induction lines generalizing resume index found with
  | nil =>
    obtain rfl : index = n := hindex
    obtain rfl := Except.ok.inj hfound
    have hback := h.enumsFrom_back 0 0 more
    simp only [Nat.zero_add] at hback
    rw [List.nil_append, enumsFrom_of_le hresume (Nat.le_refl index), hback]
    cases enumsFrom back 0 0 more <;> rfl
  | cons line rest ih =>
    rw [List.length_cons] at hindex
    have hrest : ∀ {resume : Nat} {found : List Region}, resume ≤ n →
        enumsFrom front resume (index + 1) rest = .ok found →
        enumsFrom whole resume (index + 1) (rest ++ more) =
          followedBy found n (enumsFrom back 0 0 more) :=
      fun hresume hfound => ih (by omega) hresume hfound
    rw [enumsFrom] at hfound
    rw [List.cons_append, enumsFrom]
    split at hfound
    · rename_i hbefore
      rw [if_pos hbefore]
      exact hrest hresume hfound
    · rename_i hbefore
      rw [if_neg hbefore]
      cases hline : Region.outsideMacros front (Region.enumOn front) index line with
      | error e =>
        rw [hline] at hfound
        cases hfound
      | ok r? =>
        rw [(h.outsideMacros h.enumOn).front index (by omega) line r? hline]
        rw [hline] at hfound
        cases r? with
        | none => exact hrest hresume hfound
        | some r =>
          -- An enumeration in front of the seam ends there, so the search goes on at the seam.
          have hstop := h.stop_line_lt_of_enumOn (of_outsideMacros hline)
          obtain ⟨others, hothers, rfl⟩ := exists_of_map_eq_ok hfound
          simp only [hrest hstop hothers]
          cases enumsFrom back 0 0 more <;> rfl

/-- Searches that go on line by line find in front of the seam and behind it what they find on each
side alone. -/
theorem search {search : Code → Except Unbalanced (List Region)}
    (hsearch : search ∈ [namespaces, enums, classes, functions, allVariables])
    {found : List Region} (hfound : search front = .ok found) :
    search whole = followedBy found n (search back) := by
  simp only [List.mem_cons, List.not_mem_nil, or_false] at hsearch
  rcases hsearch with rfl | rfl | rfl | rfl | rfl
  · exact h.sweep h.namespaceOn hfound
  · unfold enums
    rw [h.lines]
    exact h.enumsFrom_front ((Nat.zero_add _).trans h.length) (Nat.zero_le n) hfound back.lines
  · exact h.sweep h.classOn hfound
  · exact h.sweep h.functionOn hfound
  · exact h.sweep h.variableOn hfound

end Code.Seam

/-! ## Appended lines -/

/-- No comment goes on behind the lines, and no definition does. -/
structure EndsWhole (lines : List Line) : Prop where
  closed : Inert.Closed lines
  ended : ∀ line ∈ lines.getLast?, MacroDefinition.isContinued line = false

/-- Behind lines that end whole, more lines have the comments, literals, definitions and regions
they have on their own, further down; and the lines in front keep theirs. -/
theorem scan_append (name : String) (a b : List Line) (h : EndsWhole a) :
    (Inert.ofSource ⟨name, a ++ b⟩).comments = (Inert.ofSource ⟨name, a⟩).comments ++
        (Inert.ofSource ⟨name, b⟩).comments.map (·.down a.length) ∧
      (Inert.ofSource ⟨name, a ++ b⟩).literals = (Inert.ofSource ⟨name, a⟩).literals ++
        (Inert.ofSource ⟨name, b⟩).literals.map (·.down a.length) ∧
      (Code.ofSource ⟨name, a ++ b⟩).macros = (Code.ofSource ⟨name, a⟩).macros ++
        (Code.ofSource ⟨name, b⟩).macros.map (·.down a.length) ∧
      ∀ search ∈ [Region.namespaces, Region.enums, Region.classes, Region.functions,
          Region.allVariables],
        ∀ found, search (Code.ofSource ⟨name, a⟩) = .ok found →
          search (Code.ofSource ⟨name, a ++ b⟩) =
            match search (Code.ofSource ⟨name, b⟩) with
            | .ok more => .ok (found ++ more.map (·.down a.length))
            | .error e => .error (e.down a.length) := by
  refine ⟨Inert.comments_append h.closed, Inert.literals_append h.closed,
    MacroDefinition.ofSource_append h.closed h.ended, ?_⟩
  intro search hsearch found hfound
  exact (Code.seam_append h.closed h.ended).search hsearch hfound

def upperLines : List Line :=
  ["#define N 1".toList, "enum E \x7b /* \x7d".toList, "*/ x \x7d;".toList]

def lowerLines : List Line := ["enum F \x7b".toList, "y \x7d;".toList, "void f() \x7b".toList]

theorem scan_append_upperLines :
    EndsWhole upperLines ∧
      Region.enums (Code.ofSource ⟨"unit.cpp", upperLines ++ lowerLines⟩) =
        .ok [⟨.enumBlock, "E", ⟨⟨1, 0⟩, ⟨2, 5⟩⟩⟩, ⟨.enumBlock, "F", ⟨⟨3, 0⟩, ⟨4, 2⟩⟩⟩] ∧
      Region.functions (Code.ofSource ⟨"unit.cpp", upperLines ++ lowerLines⟩) =
        .error ⟨5, .unclosed '\x7d'⟩ := by
  have hmode : (Inert.readLines .code 0 upperLines).2 = .code := by decide +kernel
  have h : EndsWhole upperLines :=
    { closed := fun start => by rw [hmode]; exact nofun
      ended := by decide +kernel }
  obtain ⟨-, -, -, hsearches⟩ := scan_append "unit.cpp" upperLines lowerLines h
  have henums : Region.enums (Code.ofSource ⟨"unit.cpp", upperLines⟩) =
      .ok [⟨.enumBlock, "E", ⟨⟨1, 0⟩, ⟨2, 5⟩⟩⟩] := by decide +kernel
  have hfunctions : Region.functions (Code.ofSource ⟨"unit.cpp", upperLines⟩) = .ok [] := by
    decide +kernel
  have hbelow : Region.enums (Code.ofSource ⟨"unit.cpp", lowerLines⟩) =
      .ok [⟨.enumBlock, "F", ⟨⟨0, 0⟩, ⟨1, 2⟩⟩⟩] := by decide +kernel
  have hopen : Region.functions (Code.ofSource ⟨"unit.cpp", lowerLines⟩) =
      .error ⟨2, .unclosed '\x7d'⟩ := by decide +kernel
  refine ⟨h, ?_, ?_⟩
  · rw [hsearches _ (by simp) _ henums, hbelow]
    rfl
  · rw [hsearches _ (by simp) _ hfunctions, hopen]
    rfl

end ScopeLint
