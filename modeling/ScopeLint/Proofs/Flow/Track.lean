import Mathlib.Order.Bounds.Basic
import ScopeLint.Flow
import ScopeLint.Proofs.Pattern
import ScopeLint.Proofs.Sort
import ScopeLint.Proofs.Source

/-!
# Values followed from line to line

What a variable holds on a line is what the latest line in front of it assigned, or what the
declaration did. The checks carry that value along, and so they find the first line that reads a bad
one: among the lines behind the declaration and in front of the last line of the scope around it.
-/

namespace ScopeLint.Flow

variable {o : Outline} {name : Line} {isBad : Line → Bool} {declared index line stop : Nat}
  {initial value : Line} {f g : Pattern.Found}

/-! ## Mentions -/

def IsOutside (o : Outline) (index : Nat) (f : Pattern.Found) : Bool :=
  (f.part? .name).any fun c => !o.inert.covers ⟨index, c.start⟩

/-- The first mention of the variable on a line that is outside comments and literals. Mentions are
read from the left and do not overlap. -/
def FirstMention (o : Outline) (name : Line) (index : Nat) (f : Pattern.Found) : Prop :=
  ∃ before after, (mention name).findAll (o.source.line index) = before ++ f :: after ∧
    IsOutside o index f = true ∧ ∀ g ∈ before, IsOutside o index g = false

theorem find?_isOutside : ((mention name).findAll (o.source.line index)).find? (IsOutside o index) =
    some f ↔ FirstMention o name index f := by
  rw [List.find?_eq_some_iff_append]
  constructor
  · rintro ⟨hf, before, after, hall, hbefore⟩
    exact ⟨before, after, hall, hf, fun g hg => by simpa using hbefore g hg⟩
  · rintro ⟨before, after, hall, hf, hbefore⟩
    exact ⟨hf, before, after, hall, fun g hg => by simp [hbefore g hg]⟩

theorem FirstMention.unique (hf : FirstMention o name index f) (hg : FirstMention o name index g) :
    f = g :=
  Option.some.inj ((find?_isOutside.mpr hf).symm.trans (find?_isOutside.mpr hg))

theorem FirstMention.exists_name (h : FirstMention o name index f) :
    ∃ c, f.part? .name = some c := by
  obtain ⟨-, -, -, houtside, -⟩ := h
  obtain ⟨c, hc, -⟩ := (Option.any_eq_true ..).mp houtside
  exact ⟨c, hc⟩

theorem mentionEnd?_eq : mentionEnd? o.inert name index (o.source.line index) =
    (((mention name).findAll (o.source.line index)).find? (IsOutside o index)).map (·.stop) := by
  unfold mentionEnd?
  cases hholds : (o.source.line index).holds name with
  | true => rfl
  | false => rw [findAll_mention_of_not_holds hholds]; rfl

theorem mentionEnd?_eq_some_iff : mentionEnd? o.inert name index (o.source.line index) = some stop ↔
    ∃ f, FirstMention o name index f ∧ f.stop = stop := by
  rw [mentionEnd?_eq, Option.map_eq_some_iff]
  simp only [find?_isOutside]

theorem mentionEnd?_eq_none_iff : mentionEnd? o.inert name index (o.source.line index) = none ↔
    ∀ f, ¬FirstMention o name index f := by
  rw [mentionEnd?_eq, Option.map_eq_none_iff, Option.eq_none_iff_forall_ne_some]
  simp only [ne_eq, find?_isOutside]

theorem ne_nil_of_path_nameEnd {c d : Cursor} {ms : List (Mark × Nat)}
    (h : Pattern.Path nameEnd c d ms) : c.rest ≠ [] := by
  cases h with
  | preferred h =>
    cases h with
    | seq hone _ =>
      obtain ⟨x, hx, -⟩ := hone.exists_one
      simp [hx]
  | other h =>
    obtain ⟨x, hx, -⟩ := h.exists_one
    simp [hx]

theorem FirstMention.lt_length (h : FirstMention o name index f) :
    index < o.source.lines.length := by
  obtain ⟨before, after, hall, -⟩ := h
  have hf : f ∈ (mention name).findAll (o.source.line index) := by
    rw [hall]
    exact List.mem_append_right _ List.mem_cons_self
  obtain ⟨front, c, d, hline, -, hpath, -⟩ := Pattern.path_of_mem_findAll hf
  have hparts : Pattern.Path
      (.inOrder ([lineStartOrBlank, .capture .name (.text name)] ++ [nameEnd])) c d _ := hpath
  obtain ⟨e, _, _, hname, hend, -⟩ := hparts.exists_append
  obtain ⟨taken, htaken, -⟩ := hname.exists_taken
  have hne := ne_nil_of_path_nameEnd hend
  by_contra hlt
  rw [Source.line, List.getElem?_eq_none (Nat.not_lt.mp hlt), Option.getD_none, htaken] at hline
  simp_all

/-! ## Assignments and reads -/

/-- The line assigns the value to the variable, by its first mention of it. -/
def Assigns (o : Outline) (name : Line) (index : Nat) (value : Line) : Prop :=
  ∃ f, FirstMention o name index f ∧
    assigned? (o.source.line index) (f.stop - 1) false = some value

/-- The first mention of the variable on the line assigns nothing. -/
def Reads (o : Outline) (name : Line) (index : Nat) : Prop :=
  ∃ f, FirstMention o name index f ∧ assigned? (o.source.line index) (f.stop - 1) false = none

theorem Assigns.unique {other : Line} (h : Assigns o name index value)
    (h' : Assigns o name index other) : value = other := by
  obtain ⟨f, hf, hvalue⟩ := h
  obtain ⟨g, hg, hother⟩ := h'
  rw [hf.unique hg] at hvalue
  exact Option.some.inj (hvalue.symm.trans hother)

theorem Assigns.not_reads (h : Assigns o name index value) : ¬Reads o name index := by
  rintro ⟨g, hg, hnone⟩
  obtain ⟨f, hf, hvalue⟩ := h
  rw [hf.unique hg, hnone] at hvalue
  cases hvalue

/-- The value of a variable on a line: that of the latest assignment between the declaration and the
line, and the initial one if there is none. -/
inductive Holds (o : Outline) (name : Line) (declared : Nat) (initial : Line) (index : Nat) :
    Line → Prop where
  | initial (hnone : ∀ k value, declared < k → k < index → ¬Assigns o name k value) :
    Holds o name declared initial index initial
  | assigned {k : Nat} {value : Line} (hbehind : declared < k) (hbefore : k < index)
    (hassigns : Assigns o name k value)
    (hlatest : ∀ j other, k < j → j < index → ¬Assigns o name j other) :
    Holds o name declared initial index value

theorem holds_first : Holds o name declared initial (declared + 1) initial :=
  .initial fun k _ hbehind hbefore => by omega

theorem Holds.unique {other : Line} (h : Holds o name declared initial index value)
    (h' : Holds o name declared initial index other) : value = other := by
  cases h with
  | initial hnone =>
    cases h' with
    | initial => rfl
    | assigned hbehind hbefore hassigns _ => exact absurd hassigns (hnone _ _ hbehind hbefore)
  | @assigned k _ hbehind hbefore hassigns hlatest =>
    cases h' with
    | initial hnone => exact absurd hassigns (hnone _ _ hbehind hbefore)
    | @assigned j _ _ hbefore' hassigns' hlatest' =>
      rcases Nat.lt_trichotomy k j with hlt | rfl | hlt
      · exact absurd hassigns' (hlatest _ _ hlt hbefore')
      · exact hassigns.unique hassigns'
      · exact absurd hassigns (hlatest' _ _ hlt hbefore)

theorem Assigns.holds_succ (h : Assigns o name index value) (hbehind : declared < index) :
    Holds o name declared initial (index + 1) value :=
  .assigned hbehind (Nat.lt_succ_self _) h fun j _ hlt hbefore => by omega

theorem Holds.succ (h : Holds o name declared initial index value)
    (hkeeps : ∀ other, ¬Assigns o name index other) :
    Holds o name declared initial (index + 1) value := by
  have hline : ∀ {k other}, k < index + 1 → Assigns o name k other → k < index := by
    intro k other hbefore hassigns
    refine Nat.lt_of_le_of_ne (Nat.le_of_lt_succ hbefore) ?_
    rintro rfl
    exact hkeeps _ hassigns
  cases h with
  | initial hnone =>
    exact .initial fun k _ hbehind hbefore h => hnone k _ hbehind (hline hbefore h) h
  | assigned hbehind hbefore hassigns hlatest =>
    exact .assigned hbehind (Nat.lt_succ_of_lt hbefore) hassigns fun j _ hlt hbefore h =>
      hlatest j _ hlt (hline hbefore h) h

/-! ## Reads of bad values -/

/-- The line stands behind the declaration and reads the variable while its value is bad. -/
structure ReadsBad (o : Outline) (name : Line) (isBad : Line → Bool) (declared : Nat)
    (initial : Line) (index : Nat) : Prop where
  behind : declared < index
  reads : Reads o name index
  holds_bad : ∃ value, Holds o name declared initial index value ∧ isBad value = true

theorem ReadsBad.bad_of_holds (h : ReadsBad o name isBad declared initial index)
    (hvalue : Holds o name declared initial index value) : isBad value = true := by
  obtain ⟨other, hother, hbad⟩ := h.holds_bad
  rwa [hvalue.unique hother]

def entry (o : Outline) (index : Nat) : Line × Nat := (o.source.line index, index)

def readsBadFrom (o : Outline) (name : Line) (isBad : Line → Bool) (declared : Nat)
    (initial : Line) (index stop : Nat) : Set Nat :=
  {k | index ≤ k ∧ k < stop ∧ ReadsBad o name isBad declared initial k}

theorem isLeast_readsBadFrom (h : ReadsBad o name isBad declared initial index)
    (hlt : index < stop) :
    IsLeast (readsBadFrom o name isBad declared initial index stop) line ↔ index = line := by
  have hleast : IsLeast (readsBadFrom o name isBad declared initial index stop) index :=
    ⟨⟨Nat.le_refl _, hlt, h⟩, fun _ hk => hk.1⟩
  exact ⟨hleast.unique, fun heq => heq ▸ hleast⟩

theorem readsBadFrom_succ (h : ¬ReadsBad o name isBad declared initial index) :
    readsBadFrom o name isBad declared initial (index + 1) stop =
      readsBadFrom o name isBad declared initial index stop := by
  ext k
  refine ⟨fun ⟨hle, hk⟩ => ⟨Nat.le_of_succ_le hle, hk⟩, fun ⟨hle, hlt, hk⟩ => ?_⟩
  refine ⟨Nat.lt_of_le_of_ne hle ?_, hlt, hk⟩
  rintro rfl
  exact h hk

/-- The run over consecutive lines, which carries the value held on the first of them: it gives the
first line that reads a bad value. -/
theorem firstBadRead_range' (hvalue : Holds o name declared initial index value)
    (hbehind : declared < index) (count : Nat) :
    firstBadRead o.inert name isBad value ((List.range' index count).map (entry o)) = some line ↔
      IsLeast (readsBadFrom o name isBad declared initial index (index + count)) line := by
  induction count generalizing index value with
  | zero =>
    refine iff_of_false nofun fun h => ?_
    obtain ⟨hle, hlt, -⟩ := h.1
    omega
  | succ count ih =>
    have hstop : index + (count + 1) = index + 1 + count := by omega
    have hlater : ∀ {next}, Holds o name declared initial (index + 1) next →
        ¬ReadsBad o name isBad declared initial index →
        (firstBadRead o.inert name isBad next ((List.range' (index + 1) count).map (entry o)) =
            some line ↔
          IsLeast (readsBadFrom o name isBad declared initial index (index + 1 + count)) line) := by
      intro next hnext hread
      rw [ih hnext (Nat.lt_succ_of_lt hbehind), readsBadFrom_succ hread]
    rw [hstop, List.range'_succ, List.map_cons, entry, firstBadRead]
    split
    · rename_i hmention
      rw [mentionEnd?_eq_none_iff] at hmention
      exact hlater (hvalue.succ fun _ ⟨f, hf, _⟩ => hmention f hf)
        fun ⟨_, ⟨f, hf, _⟩, _⟩ => hmention f hf
    · rename_i stop hmention
      obtain ⟨f, hf, rfl⟩ := mentionEnd?_eq_some_iff.mp hmention
      split
      · rename_i assigned hassigned
        have hassigns : Assigns o name index assigned := ⟨f, hf, hassigned⟩
        exact hlater (hassigns.holds_succ hbehind) fun h => hassigns.not_reads h.reads
      · rename_i hnone
        have hreads : Reads o name index := ⟨f, hf, hnone⟩
        split
        · rename_i hbad
          have hread : ReadsBad o name isBad declared initial index :=
            ⟨hbehind, hreads, value, hvalue, hbad⟩
          rw [isLeast_readsBadFrom hread (by omega), Option.some.injEq]
        · rename_i hgood
          exact hlater (hvalue.succ fun _ h => h.not_reads hreads)
            fun h => hgood (h.bad_of_holds hvalue)

theorem mem_trackedLines {parent : Scope} {x : Line × Nat} :
    x ∈ trackedLines o declared parent ↔ (x.2 < o.source.lines.length ∧ x = entry o x.2) ∧
      declared < x.2 ∧ x.2 < parent.span.stop.line := by
  have hentry : x.1 = o.source.line x.2 ↔ x = entry o x.2 :=
    ⟨fun h => Prod.ext h rfl, fun h => congrArg Prod.fst h⟩
  rw [trackedLines, List.mem_filter, decide_eq_true_iff, Source.mem_zipIdx_lines_iff, hentry]

theorem trackedLines_eq (o : Outline) (declared : Nat) (parent : Scope) :
    trackedLines o declared parent =
      (List.range' (declared + 1)
        (min parent.span.stop.line o.source.lines.length - (declared + 1))).map (entry o) := by
  refine eq_of_pairwise_of_mem_iff (r := fun a b : Line × Nat => a.2 < b.2)
    (fun _ => Nat.lt_irrefl _) (fun _ _ _ => Nat.lt_trans) ?_ ?_ ?_
  · exact (pairwise_zipIdx _).filter _
  · exact List.pairwise_map.mpr List.pairwise_lt_range'
  · intro x
    rw [mem_trackedLines, List.mem_map]
    constructor
    · rintro ⟨⟨hlt, hx⟩, hbehind, hbefore⟩
      exact ⟨x.2, List.mem_range'_1.mpr (by omega), hx.symm⟩
    · rintro ⟨k, hk, rfl⟩
      have hk := List.mem_range'_1.mp hk
      exact ⟨⟨by simp only [entry]; omega, rfl⟩, by simp only [entry]; omega⟩

/-- What a check finds in the lines it follows: the first that reads a bad value, among the lines
behind the declaration and in front of the last line around it. -/
theorem firstBadRead_trackedLines (parent : Scope) :
    firstBadRead o.inert name isBad initial (trackedLines o declared parent) = some line ↔
      IsLeast {k | ReadsBad o name isBad declared initial k ∧ k < parent.span.stop.line} line := by
  rw [trackedLines_eq, firstBadRead_range' holds_first (Nat.lt_succ_self _)]
  suffices hlines : readsBadFrom o name isBad declared initial (declared + 1)
      (declared + 1 + (min parent.span.stop.line o.source.lines.length - (declared + 1))) =
      {k | ReadsBad o name isBad declared initial k ∧ k < parent.span.stop.line} by rw [hlines]
  ext k
  constructor
  · rintro ⟨hle, hlt, hread⟩
    exact ⟨hread, by omega⟩
  · rintro ⟨hread, hlt⟩
    obtain ⟨f, hf, -⟩ := hread.reads
    have := hread.behind
    have := hf.lt_length
    exact ⟨hread.behind, by omega, hread⟩

end ScopeLint.Flow
