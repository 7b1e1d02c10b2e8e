import ScopeLint.Proofs.Pattern.LoopWord
import ScopeLint.Proofs.Region.Alike
import ScopeLint.Proofs.Span

/-!
# Ends of loops

The words `do` and `while` behind a loop's `do` are brackets: the loop ends at the first `while` with
a condition and a semicolon up to which more loops are closed than opened. So it is found wherever
no word that counts is crowded by the one in front of it.
-/

namespace ScopeLint.Region

/-! ## Loops that open and close -/

/-- A word that opens a loop, or one that closes it with a statement. -/
inductive LoopMark where
  | opens
  | closes (statement : Position)
  deriving DecidableEq, Repr

namespace LoopMark

def isOpening : LoopMark → Bool
  | opens => true
  | closes _ => false

def openings (marks : List LoopMark) : Nat := marks.countP isOpening

def closings (marks : List LoopMark) : Nat := marks.countP (!isOpening ·)

/-- The statement closes the first loop too many, with `nested` loops open in front of the marks. -/
def ClosesFirst (nested : Nat) (marks : List LoopMark) (p : Position) : Prop :=
  ∃ front back, marks = front ++ closes p :: back ∧
    nested + openings (front ++ [closes p]) < closings (front ++ [closes p]) ∧
    ∀ part, part <+: front → closings part ≤ nested + openings part

def read : Nat → List LoopMark → LoopStep
  | nested, [] => .inside nested
  | nested, opens :: more => read (nested + 1) more
  | 0, closes statement :: _ => .closed statement
  | nested + 1, closes _ :: more => read nested more

theorem read_append (nested : Nat) (front back : List LoopMark) : read nested (front ++ back) =
    match read nested front with
    | .closed p => .closed p
    | .inside n => read n back := by
  fun_induction read nested front with
  | case1 => rfl
  | case2 nested more ih => exact ih
  | case3 => rfl
  | case4 nested p more ih => exact ih

theorem openings_cons (m : LoopMark) (marks : List LoopMark) :
    openings (m :: marks) = openings [m] + openings marks := by
  rw [← List.singleton_append]
  exact List.countP_append

theorem closings_cons (m : LoopMark) (marks : List LoopMark) :
    closings (m :: marks) = closings [m] + closings marks := by
  rw [← List.singleton_append]
  exact List.countP_append

@[simp] theorem openings_closes (p : Position) : openings [closes p] = 0 := rfl

@[simp] theorem closings_closes (p : Position) : closings [closes p] = 1 := rfl

theorem closesFirst_cons {nested nested' : Nat} {m : LoopMark} {marks : List LoopMark}
    {p : Position} (h : nested + openings [m] = nested' + closings [m]) :
    ClosesFirst nested (m :: marks) p ↔ ClosesFirst nested' marks p := by
  constructor
  · rintro ⟨front, back, hmarks, hmore, hfront⟩
    cases front with
    | nil =>
      -- The first mark closes a loop, so one was open in front of it.
      obtain ⟨rfl, rfl⟩ := List.cons.inj hmarks
      rw [List.nil_append] at hmore
      omega
    | cons m' front =>
      obtain ⟨rfl, rfl⟩ := List.cons.inj hmarks
      refine ⟨front, back, rfl, ?_, fun part hpart => ?_⟩
      · rw [List.cons_append, openings_cons, closings_cons] at hmore
        omega
      · have hle := hfront (m :: part) (List.cons_prefix_cons.mpr ⟨rfl, hpart⟩)
        rw [openings_cons, closings_cons] at hle
        omega
  · rintro ⟨front, back, rfl, hmore, hfront⟩
    refine ⟨m :: front, back, rfl, ?_, fun part hpart => ?_⟩
    · rw [List.cons_append, openings_cons, closings_cons]
      omega
    · rcases List.prefix_cons_iff.mp hpart with rfl | ⟨more, rfl, hmorePart⟩
      · exact Nat.zero_le _
      · have hle := hfront more hmorePart
        rw [openings_cons, closings_cons]
        omega

theorem closesFirst_closes {p q : Position} {marks : List LoopMark} :
    ClosesFirst 0 (closes q :: marks) p ↔ q = p := by
  constructor
  · rintro ⟨front, back, hmarks, -, hfront⟩
    cases front with
    | nil => exact closes.inj (List.cons.inj hmarks).1
    | cons m front =>
      obtain ⟨rfl, -⟩ := List.cons.inj hmarks
      have hle := hfront [closes q] (List.cons_prefix_cons.mpr ⟨rfl, List.nil_prefix⟩)
      rw [openings_closes, closings_closes] at hle
      omega
  · rintro rfl
    refine ⟨[], marks, rfl, by simp, fun part hpart => ?_⟩
    rw [List.prefix_nil.mp hpart]
    exact Nat.le_refl _

theorem read_eq_closed_iff {nested : Nat} {marks : List LoopMark} {p : Position} :
    read nested marks = .closed p ↔ ClosesFirst nested marks p := by
  fun_induction read nested marks with
  | case1 nested => simp [ClosesFirst]
  | case2 nested more ih => rw [ih, closesFirst_cons rfl]
  | case3 q more => rw [closesFirst_closes, LoopStep.closed.injEq]
  | case4 nested q more ih => rw [ih, closesFirst_cons rfl]

instance (nested : Nat) (marks : List LoopMark) (p : Position) :
    Decidable (ClosesFirst nested marks p) := decidable_of_iff _ read_eq_closed_iff

end LoopMark

/-! ## The words behind a `do` -/

/-- What a loop word counts as: nothing in a comment or literal, and a `while` only where a condition
and a semicolon follow. -/
def wordMark? (code : Code) (index : Nat) (line : Line) (word : Capture) : Option LoopMark :=
  if code.inert.covers ⟨index, word.start⟩ then none
  else if line.slice word.start word.stop = "do".toList then some .opens
  else (Extent.loopStatement? code ⟨index, word.stop⟩).map .closes

def wordsBehind (start : Position) (index : Nat) (line : Line) : List Capture :=
  line.loopWords.filter fun word => decide (start ≤ ⟨index, word.start⟩)

def marksFrom (code : Code) (start : Position) : Nat → List Line → List LoopMark
  | _, [] => []
  | index, line :: rest =>
    (if code.inMacro index then []
      else (wordsBehind start index line).filterMap (wordMark? code index line)) ++
      marksFrom code start (index + 1) rest

/-- The marks of a unit at or behind a position, outside macros and in reading order. -/
def loopMarks (code : Code) (start : Position) : List LoopMark := marksFrom code start 0 code.lines

def RoomyOn (code : Code) (start : Position) (index : Nat) (line : Line) : Prop :=
  code.inMacro index = false → ∀ u ∈ wordsBehind start index line,
    ∀ v ∈ wordsBehind start index line, (wordMark? code index line v).isSome = true →
      ¬u.Crowds line v

/-- At or behind the position, no word that counts stands one character behind another loop word of
its line. -/
def Roomy (code : Code) (start : Position) : Prop :=
  ∀ entry ∈ code.lines.zipIdx, RoomyOn code start entry.2 entry.1

instance (code : Code) (start : Position) (index : Nat) (line : Line) :
    Decidable (RoomyOn code start index line) := inferInstanceAs (Decidable (_ → _))

instance (code : Code) (start : Position) : Decidable (Roomy code start) :=
  inferInstanceAs (Decidable (∀ entry ∈ code.lines.zipIdx, _))

variable {code : Code} {start : Position} {index offset nested : Nat} {line : Line}

def SplitsAt (line : Line) (offset : Nat) : Prop :=
  ∃ front part, line = front ++ part ∧ offset = Line.size front ∧
    (front = [] ∨ part.head?.any isWord = false)

theorem readLoopWords_eq (front part : Line) (words : List Capture) :
    readLoopWords code index (Line.size front) part nested words =
      LoopMark.read nested (words.filterMap fun word =>
        wordMark? code index (front ++ part) (word.shift (Line.size front))) := by
  induction words generalizing nested with
  | nil => rfl
  | cons word more ih =>
    rw [readLoopWords, List.filterMap_cons, wordMark?, Capture.shift, Line.slice_append_shift]
    split
    · exact ih
    · split
      · exact ih
      · cases Extent.loopStatement? code ⟨index, Line.size front + word.stop⟩ with
        | none => exact ih
        | some statement =>
          cases nested with
          | zero => rfl
          | succ n => exact ih

/-- The loop words of a line are read as the marks that stand behind the position. -/
theorem loopStep_eq_read (hline : SplitsAt line offset)
    (hstart : ∀ col, start ≤ ⟨index, col⟩ ↔ offset ≤ col) (houtside : code.inMacro index = false)
    (hroomy : RoomyOn code start index line) : loopStep code nested offset index line =
      LoopMark.read nested ((wordsBehind start index line).filterMap (wordMark? code index line)) := by
  obtain ⟨front, part, rfl, rfl, hseam⟩ := hline
  have hwords : wordsBehind start index (front ++ part) =
      part.loopWords.map (·.shift (Line.size front)) := by
    rw [← Line.filter_loopWords hseam, wordsBehind]
    simp only [hstart]
  have hmem {u : Capture} (hu : u ∈ part.loopWords) :
      u.shift (Line.size front) ∈ wordsBehind start index (front ++ part) := by
    rw [hwords]
    exact List.mem_map_of_mem hu
  have hfound := Pattern.filterMap_findAll_loopWord
    (fun word => wordMark? code index (front ++ part) (word.shift (Line.size front)))
    fun u hu v hv hmark hcrowds => by
      refine hroomy houtside _ (hmem hu) _ (hmem hv) hmark ?_
      rw [Capture.Crowds, Capture.shift, Capture.shift, Line.slice_append_shift]
      exact hcrowds
  rw [loopStep, Line.from?_append, Option.getD_some, readLoopWords_eq, hfound, hwords,
    List.filterMap_map]
  rfl

def LoopStep.closed? : LoopStep → Option Position
  | .closed p => some p
  | .inside _ => none

theorem loopEndFrom_cons_eq {rest : List Line} (hline : SplitsAt line offset)
    (hstart : ∀ col, start ≤ ⟨index, col⟩ ↔ offset ≤ col) (hroomy : RoomyOn code start index line)
    (hrest : ∀ nested, loopEndFrom code nested (index + 1) 0 rest =
      (LoopMark.read nested (marksFrom code start (index + 1) rest)).closed?) :
    loopEndFrom code nested index offset (line :: rest) =
      (LoopMark.read nested (marksFrom code start index (line :: rest))).closed? := by
  rw [loopEndFrom_cons, marksFrom]
  split
  · exact hrest nested
  · rename_i houtside
    rw [loopStep_eq_read hline hstart (Bool.eq_false_iff.mpr houtside) hroomy, LoopMark.read_append]
    cases LoopMark.read nested ((wordsBehind start index line).filterMap (wordMark? code index line))
      with
    | closed p => rfl
    | inside n => exact hrest n

theorem loopEndFrom_eq {lines : List Line} (hbelow : start.line < index)
    (hroomy : ∀ i line, lines[i]? = some line → RoomyOn code start (index + i) line) :
    loopEndFrom code nested index 0 lines =
      (LoopMark.read nested (marksFrom code start index lines)).closed? := by
  induction lines generalizing index nested with
  | nil => rfl
  | cons line rest ih =>
    refine loopEndFrom_cons_eq ⟨[], line, rfl, rfl, .inl rfl⟩ (fun col => ?_)
      (hroomy 0 line rfl) fun nested => ih (by omega) fun i line hi => ?_
    · rw [Position.le_def]
      simp [hbelow]
    · rw [Nat.add_right_comm]
      exact hroomy (i + 1) line hi

theorem marksFrom_drop {lines : List Line} {n : Nat} (h : index + n ≤ start.line) :
    marksFrom code start index lines = marksFrom code start (index + n) (lines.drop n) := by
  induction n generalizing index lines with
  | zero => rfl
  | succ n ih =>
    cases lines with
    | nil => rfl
    | cons line rest =>
      have hnone : wordsBehind start index line = [] := by
        refine List.filter_eq_nil_iff.mpr fun word _ hle => ?_
        have hle := of_decide_eq_true hle
        rw [Position.le_def] at hle
        simp only at hle
        omega
      rw [marksFrom, hnone, List.filterMap_nil, ite_self, List.nil_append, ih (by omega),
        List.drop_succ_cons, Nat.add_right_comm, Nat.add_assoc]

theorem splitsAt_conditionalWord {keyword : Capture}
    (h : conditionalWord? code index line = some keyword) : SplitsAt line keyword.stop := by
  obtain ⟨f, hf, hpart⟩ := List.mem_filterMap.mp (List.mem_of_find?_eq_some h)
  obtain ⟨front, c, hline, hcol, hfAt⟩ := Pattern.exists_foundAt_of_mem_findAll hf
  obtain ⟨edge, w, back, rest, -, -, hback, hrest, -, hword, -⟩ := Pattern.exists_framed hfAt
  obtain rfl := Option.some.inj (hpart.symm.trans hword)
  refine ⟨front ++ edge ++ w.toList, back ++ rest, ?_, ?_, .inr ?_⟩
  · rw [hline, hrest]
    simp only [List.append_assoc]
  · rw [Line.size_append, Line.size_append, hcol]
  · rcases hback with ⟨rfl, rfl⟩ | ⟨x, rfl, hx⟩
    · rfl
    · -- An opening bracket or a blank stands behind the word.
      simp only [Bool.or_eq_true, beq_iff_eq] at hx
      rw [List.singleton_append, List.head?_cons, Option.any_some]
      cases hword : isWord x with
      | false => rfl
      | true =>
        rw [isBlank_eq_false_of_isWord hword] at hx
        rcases hx with (rfl | rfl) | hx
        · revert hword; decide +kernel
        · revert hword; decide +kernel
        · cases hx

/-- The end of the loop whose `do` is the conditional of a line: where no word that counts is crowded
behind it, the statement of the first `while` behind the `do` up to which more loops are closed than
opened. -/
theorem loopEnd_eq_ok_iff {keyword : Capture} {p : Position}
    (hline : code.lines[index]? = some line)
    (hkeyword : conditionalWord? code index line = some keyword)
    (hroomy : Roomy code ⟨index, keyword.stop⟩) :
    loopEnd code ⟨index, keyword.stop⟩ = .ok p ↔
      LoopMark.ClosesFirst 0 (loopMarks code ⟨index, keyword.stop⟩) p := by
  have hroomyOn (i : Nat) (line : Line) (hi : code.lines[i]? = some line) :
      RoomyOn code ⟨index, keyword.stop⟩ i line :=
    hroomy (line, i) (List.mk_mem_zipIdx_iff_getElem?.mpr hi)
  have hdrop : code.lines.drop index = line :: code.lines.drop (index + 1) := by
    obtain ⟨hindex, rfl⟩ := List.getElem?_eq_some_iff.mp hline
    exact List.drop_eq_getElem_cons hindex
  have hend : loopEndFrom code 0 index keyword.stop (code.lines.drop index) =
      (LoopMark.read 0 (loopMarks code ⟨index, keyword.stop⟩)).closed? := by
    rw [loopMarks, marksFrom_drop (n := index) (by simp), Nat.zero_add, hdrop]
    refine loopEndFrom_cons_eq (splitsAt_conditionalWord hkeyword) (fun col => ?_)
      (hroomyOn index line hline) fun nested => ?_
    · rw [Position.le_def]
      simp
    · refine loopEndFrom_eq (Nat.lt_succ_self _) fun i line hi => hroomyOn _ line ?_
      rwa [List.getElem?_drop] at hi
  rw [loopEnd, hend, ← LoopMark.read_eq_closed_iff]
  cases LoopMark.read 0 (loopMarks code ⟨index, keyword.stop⟩) with
  | closed q => simp [LoopStep.closed?]
  | inside n => simp [LoopStep.closed?]

def nestedLoops : Source := ⟨"loops.cpp", [
  "do \x7b".toList,
  "  do \x7b a(); \x7d while (b);".toList,
  "  while (c) \x7b \x7d".toList,
  "\x7d while (d);".toList]⟩

theorem loopEnd_nestedLoops :
    loopEnd (.ofSource nestedLoops) ⟨0, 2⟩ = .ok ⟨3, 11⟩ ∧
      LoopMark.ClosesFirst 0 (loopMarks (.ofSource nestedLoops) ⟨0, 2⟩) ⟨3, 11⟩ := by
  have hend : loopEnd (.ofSource nestedLoops) ⟨0, 2⟩ = .ok ⟨3, 11⟩ := by decide +kernel
  have hiff := @loopEnd_eq_ok_iff (.ofSource nestedLoops) 0 "do \x7b".toList ⟨0, 2⟩ ⟨3, 11⟩
    (by decide +kernel) (by decide +kernel) (by decide +kernel)
  exact ⟨hend, hiff.mp hend⟩

/-- A loop with two loops in it, the second of which is the body of the first. -/
def crowdedLoops : Source :=
  ⟨"loops.cpp", ["do \x7b do do x(); while (a); while (b); \x7d while (c);".toList]⟩

/-- The third `do` is missed, and with it the `while` that closes the loop. -/
theorem loopEnd_crowdedLoops :
    conditionalWord? (.ofSource crowdedLoops) 0 (crowdedLoops.line 0) = some ⟨0, 2⟩ ∧
      loopEnd (.ofSource crowdedLoops) ⟨0, 2⟩ = .ok ⟨0, 36⟩ ∧
      ¬LoopMark.ClosesFirst 0 (loopMarks (.ofSource crowdedLoops) ⟨0, 2⟩) ⟨0, 36⟩ ∧
      LoopMark.ClosesFirst 0 (loopMarks (.ofSource crowdedLoops) ⟨0, 2⟩) ⟨0, 49⟩ := by
  decide +kernel

end ScopeLint.Region
