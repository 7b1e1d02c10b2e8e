import ScopeLint.Pattern
import ScopeLint.Proofs.Text.Line

/-!
# What a pattern prefers

A table of ways is kept place by place. Read from one place, it says what trying the branches one
after the other would: a pattern leads from there to the first way that its continuation accepts.
-/

namespace ScopeLint

/-! ## Places -/

namespace Cursor

def forward? : Nat → Cursor → Option Cursor
  | 0, c => some c
  | n + 1, c =>
    match c.rest with
    | [] => none
    | x :: rest => forward? n ⟨some x, c.col + x.utf8Size, rest⟩

theorem forward?_add (m n : Nat) (c : Cursor) :
    forward? (m + n) c = (forward? m c).bind (forward? n) := by
  induction m generalizing c with
  | zero => rw [Nat.zero_add, forward?, Option.bind_some]
  | succ m ih =>
    rw [Nat.succ_add, forward?, forward?]
    cases c.rest with
    | nil => rfl
    | cons x rest => exact ih _

theorem getElem?_allFrom (before : Option Char) (col : Nat) (line : Line) (n : Nat) :
    (allFrom before col line)[n]? = forward? n ⟨before, col, line⟩ := by
  induction line generalizing before col n with
  | nil => cases n <;> rfl
  | cons x rest ih =>
    cases n with
    | zero => rfl
    | succ n => exact ih _ _ n

theorem exists_taken {n : Nat} {c d : Cursor} (h : forward? n c = some d) :
    ∃ taken, taken.length = n ∧ c.rest = taken ++ d.rest ∧ d.col = c.col + Line.size taken := by
  induction n generalizing c with
  | zero =>
    obtain rfl : c = d := Option.some.inj h
    exact ⟨[], rfl, rfl, rfl⟩
  | succ n ih =>
    rw [forward?] at h
    split at h
    · simp at h
    · rename_i x rest hrest
      obtain ⟨taken, hlength, htaken, hcol⟩ := ih h
      refine ⟨x :: taken, by rw [List.length_cons, hlength], ?_, ?_⟩
      · rw [hrest, List.cons_append]
        exact congrArg (x :: ·) htaken
      · rw [hcol, Line.size, Nat.add_assoc]

theorem exists_forward? {c : Cursor} {taken rest : Line} (h : c.rest = taken ++ rest) :
    ∃ d, c.forward? taken.length = some d ∧ d.rest = rest := by
  induction taken generalizing c with
  | nil => exact ⟨c, rfl, h⟩
  | cons x taken ih =>
    obtain ⟨d, hd, hrest⟩ := ih (c := ⟨some x, c.col + x.utf8Size, taken ++ rest⟩) rfl
    refine ⟨d, ?_, hrest⟩
    rw [List.length_cons, forward?, h]
    exact hd

theorem exists_front_of_mem_allFrom {before : Option Char} {col : Nat} {line : Line} {c : Cursor}
    (h : c ∈ allFrom before col line) : ∃ front, line = front ++ c.rest ∧
      c.col = col + Line.size front ∧ c.before = front.getLast?.or before := by
  induction line generalizing before col with
  | nil =>
    rw [allFrom, List.mem_singleton] at h
    exact ⟨[], by rw [h]; rfl, by rw [h]; rfl, by rw [h]; rfl⟩
  | cons x rest ih =>
    rw [allFrom, List.mem_cons] at h
    rcases h with rfl | h
    · exact ⟨[], rfl, rfl, rfl⟩
    · obtain ⟨front, hrest, hcol, hbefore⟩ := ih h
      refine ⟨x :: front, by rw [hrest]; rfl, by rw [hcol, Line.size, Nat.add_assoc], ?_⟩
      rw [hbefore, List.getLast?_cons]
      cases front.getLast? <;> rfl

theorem length_rest_of_forward? {n : Nat} {c d : Cursor} (h : forward? n c = some d) :
    c.rest.length = n + d.rest.length := by
  obtain ⟨taken, hlength, hrest, -⟩ := exists_taken h
  rw [hrest, List.length_append, hlength]

end Cursor

/-! ## Leads -/

/-- How a match goes on from each place. -/
abbrev Further := Cursor → Option Way

namespace Step

/-- One step, and then on by `k`. -/
def lead (s : Step) (k : Further) : Further := fun c => (s c).bind fun n => (c.forward? n).bind k

/-- As many steps as there are to take, and fewer where `k` does not go on from there. -/
def leadAgain (s : Step) (k : Further) (c : Cursor) : Option Way :=
  match s c with
  | none | some 0 => k c
  | some (n + 1) =>
    match _h : c.forward? (n + 1) with
    | none => k c
    | some d => (s.leadAgain k d).or (k c)
termination_by c.rest.length
decreasing_by
  have hlength := Cursor.length_rest_of_forward? _h
  omega

variable {s : Step} {k : Further} {c d : Cursor} {n : Nat}

theorem leadAgain_stay (h : ∀ n d, s c = some (n + 1) → c.forward? (n + 1) ≠ some d) :
    s.leadAgain k c = k c := by
  rw [leadAgain]
  split
  · rfl
  · rfl
  · rename_i n hs
    split
    · rfl
    · rename_i d hd
      exact absurd hd (h n d hs)

theorem leadAgain_move (hs : s c = some (n + 1)) (hd : c.forward? (n + 1) = some d) :
    s.leadAgain k c = (s.leadAgain k d).or (k c) := by
  rw [leadAgain, hs]
  simp only
  split
  · rename_i hnone
    rw [hd] at hnone
    cases hnone
  · rename_i d' hd'
    rw [hd] at hd'
    rw [Option.some.inj hd']

end Step

namespace Pattern

/-- The preferred way from a place through the pattern and then on by `k`. -/
def lead : Pattern → Further → Further
  | step s, k => s.lead k
  | loop s, k => s.leadAgain k
  | mark m, k => fun c => (k c).map fun w => { w with marks := (m, c.col) :: w.marks }
  | seq first second, k => first.lead (second.lead k)
  | alt preferred other, k => fun c => (preferred.lead k c).or (other.lead k c)

variable {k : Further}

theorem getElem?_stepWays (s : Step) (places : List Cursor) (further : List (Option Way))
    (i : Nat) : (stepWays s places further)[i]? = places[i]?.bind fun c =>
      further[i]?.map fun _ => (s c).bind fun n => further[i + n]?.join := by
  induction places generalizing further i with
  | nil => rfl
  | cons c places ih =>
    cases further with
    | nil => cases h : (c :: places)[i]? <;> simp [stepWays]
    | cons here later =>
      rw [stepWays]
      cases i with
      | zero => simp
      | succ i =>
        have hnext : ∀ n, (here :: later)[i + 1 + n]? = later[i + n]? := by
          intro n
          rw [Nat.succ_add, List.getElem?_cons_succ]
        simp only [List.getElem?_cons_succ, ih, hnext]

theorem join_map (o : Option Cursor) (k : Further) : (o.map k).join = o.bind k := by
  cases o <;> rfl

theorem stepWays_eq_map (s : Step) (before : Option Char) (col : Nat) (line : Line) :
    stepWays s (Cursor.allFrom before col line) ((Cursor.allFrom before col line).map k) =
      (Cursor.allFrom before col line).map (s.lead k) := by
  apply List.ext_getElem?
  intro i
  rw [getElem?_stepWays, List.getElem?_map, List.getElem?_map]
  cases hc : (Cursor.allFrom before col line)[i]? with
  | none => rfl
  | some c =>
    rw [Cursor.getElem?_allFrom] at hc
    have hnext : ∀ n, (((Cursor.allFrom before col line).map k)[i + n]?).join =
        (c.forward? n).bind k := by
      intro n
      rw [List.getElem?_map, join_map, Cursor.getElem?_allFrom, Cursor.forward?_add, hc,
        Option.bind_some]
    simp only [Option.bind_some, Option.map_some, hnext]
    rfl

theorem loopWays_eq_map (s : Step) (before : Option Char) (col : Nat) (line : Line) :
    loopWays s (Cursor.allFrom before col line) ((Cursor.allFrom before col line).map k) =
      (Cursor.allFrom before col line).map (s.leadAgain k) := by
  induction line generalizing before col with
  | nil =>
    have hstay : s.leadAgain k ⟨before, col, []⟩ = k ⟨before, col, []⟩ :=
      Step.leadAgain_stay fun n d _ hd => by cases hd
    rw [Cursor.allFrom, List.map_singleton, List.map_singleton, hstay, loopWays]
    split <;> rfl
  | cons x rest ih =>
    rw [Cursor.allFrom, List.map_cons, List.map_cons, loopWays, ih]
    have hstay (h : ∀ n, s ⟨before, col, x :: rest⟩ ≠ some (n + 1)) :
        s.leadAgain k ⟨before, col, x :: rest⟩ = k ⟨before, col, x :: rest⟩ :=
      Step.leadAgain_stay fun n _ hs _ => h n hs
    split
    · rename_i hs
      rw [hstay (by simp [hs])]
    · rename_i hs
      rw [hstay (by simp [hs])]
    · rename_i n hs
      congr 1
      have hnext : (⟨before, col, x :: rest⟩ : Cursor).forward? (n + 1) =
          (⟨some x, col + x.utf8Size, rest⟩ : Cursor).forward? n := rfl
      rw [List.getElem?_map, join_map, Cursor.getElem?_allFrom]
      cases hd : (⟨some x, col + x.utf8Size, rest⟩ : Cursor).forward? n with
      | none =>
        rw [Step.leadAgain_stay, Option.bind_none, Option.none_or]
        intro n' d hs' hd'
        obtain rfl : n = n' := by simpa [hs] using hs'
        rw [hnext, hd] at hd'
        cases hd'
      | some d => rw [Step.leadAgain_move hs (hnext.trans hd), Option.bind_some]

/-- The table of ways has for each place what the pattern leads to from there. -/
theorem ways_eq_map_lead (p : Pattern) (k : Further) (before : Option Char) (col : Nat)
    (line : Line) :
    p.ways (Cursor.allFrom before col line) ((Cursor.allFrom before col line).map k) =
      (Cursor.allFrom before col line).map (p.lead k) := by
  induction p generalizing k with
  | step s => exact stepWays_eq_map s before col line
  | loop s => exact loopWays_eq_map s before col line
  | mark m => rw [ways, markWays, List.zipWith_map_right, List.zipWith_self]; rfl
  | seq first second ih₁ ih₂ => rw [ways, ih₂, ih₁, lead]
  | alt preferred other ih₁ ih₂ =>
    rw [ways, ih₁, ih₂, List.zipWith_map, List.zipWith_self]
    rfl

/-! ## Matches -/

def stopping : Further := fun c => some ⟨c.col, []⟩

def foundAt (p : Pattern) (c : Cursor) : Option Found :=
  (p.lead stopping c).map fun w => ⟨c.col, w.stop, w.marks⟩

theorem matchesAt_eq_map (p : Pattern) (line : Line) :
    p.matchesAt line = (Cursor.all line).map p.foundAt := by
  have hways := p.ways_eq_map_lead stopping none 0 line
  unfold stopping at hways
  rw [matchesAt, Cursor.all, hways, List.zipWith_map_right, List.zipWith_self]
  rfl

theorem matchLine_eq (p : Pattern) (line : Line) :
    p.matchLine line = p.foundAt ⟨none, 0, line⟩ := by
  rw [matchLine, matchesAt_eq_map, Cursor.all]
  cases line <;> rfl

theorem findAll_eq (p : Pattern) (line : Line) :
    p.findAll line = apart 0 ((Cursor.all line).filterMap p.foundAt) := by
  rw [findAll, matchesAt_eq_map, List.filterMap_map]
  rfl

end Pattern

end ScopeLint
