import Mathlib.Tactic.Tauto
import ScopeLint.Proofs.Pattern.Lead

/-!
# Matches are paths

A path goes through a pattern and through a line at once. Every way that a pattern leads to is such
a path, so that what all paths have in common holds of every match.
-/

namespace ScopeLint

namespace Pattern

/-! ## Paths -/

/-- A way through a pattern from a place to a place, with the marks set on it. -/
inductive Path : Pattern → Cursor → Cursor → List (Mark × Nat) → Prop where
  | step {s : Step} {c d : Cursor} {n : Nat} (hs : s c = some n) (hd : c.forward? n = some d) :
    Path (.step s) c d []
  | done {s : Step} {c : Cursor} : Path (.loop s) c c []
  | again {s : Step} {c d e : Cursor} {n : Nat} {ms : List (Mark × Nat)} (hs : s c = some (n + 1))
    (hd : c.forward? (n + 1) = some d) (rest : Path (.loop s) d e ms) : Path (.loop s) c e ms
  | mark {m : Mark} {c : Cursor} : Path (.mark m) c c [(m, c.col)]
  | seq {first second : Pattern} {c d e : Cursor} {ms ns : List (Mark × Nat)}
    (front : Path first c d ms) (back : Path second d e ns) :
    Path (.seq first second) c e (ms ++ ns)
  | preferred {first second : Pattern} {c d : Cursor} {ms : List (Mark × Nat)}
    (path : Path first c d ms) : Path (.alt first second) c d ms
  | other {first second : Pattern} {c d : Cursor} {ms : List (Mark × Nat)}
    (path : Path second c d ms) : Path (.alt first second) c d ms

theorem Path.exists_taken {p : Pattern} {c d : Cursor} {ms : List (Mark × Nat)}
    (h : Path p c d ms) :
    ∃ taken, c.rest = taken ++ d.rest ∧ d.col = c.col + Line.size taken := by
  induction h with
  | step _ hd =>
    obtain ⟨taken, -, hrest, hcol⟩ := Cursor.exists_taken hd
    exact ⟨taken, hrest, hcol⟩
  | done => exact ⟨[], rfl, rfl⟩
  | again _ hd _ ih =>
    obtain ⟨front, -, hfront, hcol⟩ := Cursor.exists_taken hd
    obtain ⟨back, hback, hcol'⟩ := ih
    refine ⟨front ++ back, ?_, ?_⟩
    · rw [hfront, hback, List.append_assoc]
    · rw [hcol', hcol, Line.size_append, Nat.add_assoc]
  | mark => exact ⟨[], rfl, rfl⟩
  | seq _ _ ih₁ ih₂ =>
    obtain ⟨front, hfront, hcol⟩ := ih₁
    obtain ⟨back, hback, hcol'⟩ := ih₂
    refine ⟨front ++ back, ?_, ?_⟩
    · rw [hfront, hback, List.append_assoc]
    · rw [hcol', hcol, Line.size_append, Nat.add_assoc]
  | preferred _ ih => exact ih
  | other _ ih => exact ih

/-! ## Matches are paths -/

/-- A way that a pattern leads to goes on as one from where a path through the pattern ends. -/
theorem exists_path_of_lead {p : Pattern} {k : Further} {c : Cursor} {w : Way}
    (h : p.lead k c = some w) :
    ∃ d ms w', Path p c d ms ∧ k d = some w' ∧ w = ⟨w'.stop, ms ++ w'.marks⟩ := by
  induction p generalizing k c w with
  | step s =>
    obtain ⟨n, hs, h⟩ := Option.bind_eq_some_iff.mp h
    obtain ⟨d, hd, h⟩ := Option.bind_eq_some_iff.mp h
    exact ⟨d, [], w, .step hs hd, h, rfl⟩
  | loop s =>
    have hdone : ∀ {c w}, k c = some w →
        ∃ d ms w', Path (.loop s) c d ms ∧ k d = some w' ∧ w = ⟨w'.stop, ms ++ w'.marks⟩ :=
      fun h => ⟨_, [], _, .done, h, rfl⟩
    rw [lead] at h
    fun_induction s.leadAgain k c with
    | case1 | case2 | case3 => exact hdone h
    | case4 c n hs d hd ih =>
      rcases Option.or_eq_some_iff.mp h with h | ⟨-, h⟩
      · obtain ⟨e, ms, w', hpath, hw', hw⟩ := ih h
        exact ⟨e, ms, w', .again hs hd hpath, hw', hw⟩
      · exact hdone h
  | mark m =>
    obtain ⟨w', hw', rfl⟩ := Option.map_eq_some_iff.mp h
    exact ⟨c, [(m, c.col)], w', .mark, hw', rfl⟩
  | seq first second ih₁ ih₂ =>
    obtain ⟨d, ms, w₁, hfront, hw₁, rfl⟩ := ih₁ h
    obtain ⟨e, ns, w₂, hback, hw₂, rfl⟩ := ih₂ hw₁
    exact ⟨e, ms ++ ns, w₂, .seq hfront hback, hw₂, by rw [List.append_assoc]⟩
  | alt preferred other ih₁ ih₂ =>
    rcases Option.or_eq_some_iff.mp h with h | ⟨-, h⟩
    · obtain ⟨d, ms, w', hpath, hw', hw⟩ := ih₁ h
      exact ⟨d, ms, w', .preferred hpath, hw', hw⟩
    · obtain ⟨d, ms, w', hpath, hw', hw⟩ := ih₂ h
      exact ⟨d, ms, w', .other hpath, hw', hw⟩

theorem path_of_foundAt {p : Pattern} {c : Cursor} {f : Found} (h : p.foundAt c = some f) :
    ∃ d, Path p c d f.marks ∧ f.start = c.col ∧ f.stop = d.col := by
  obtain ⟨w, hw, rfl⟩ := Option.map_eq_some_iff.mp h
  obtain ⟨d, ms, w', hpath, hw', rfl⟩ := exists_path_of_lead hw
  obtain rfl := Option.some.inj hw'
  exact ⟨d, by simpa using hpath, rfl, rfl⟩

theorem path_of_matchLine {p : Pattern} {line : Line} {f : Found} (h : p.matchLine line = some f) :
    ∃ d, Path p ⟨none, 0, line⟩ d f.marks ∧ f.start = 0 ∧ f.stop = d.col := by
  rw [matchLine_eq] at h
  exact path_of_foundAt h

theorem isSome_lead_of_path {p : Pattern} {c d : Cursor} {ms : List (Mark × Nat)} {k : Further}
    (h : Path p c d ms) (hk : (k d).isSome = true) : (p.lead k c).isSome = true := by
  induction h generalizing k with
  | step hs hd =>
    rw [lead, Step.lead, hs, Option.bind_some, hd, Option.bind_some]
    exact hk
  | @done s c =>
    rw [lead]
    fun_cases s.leadAgain k c with
    | case1 | case2 | case3 => exact hk
    | case4 => rw [Option.isSome_or, hk, Bool.or_true]
  | again hs hd _ ih =>
    simp only [lead] at ih ⊢
    rw [Step.leadAgain_move hs hd, Option.isSome_or, ih hk, Bool.true_or]
  | mark =>
    rw [lead, Option.isSome_map]
    exact hk
  | seq _ _ ih₁ ih₂ => exact ih₁ (ih₂ hk)
  | preferred _ ih =>
    simp only [lead]
    rw [Option.isSome_or, ih hk, Bool.true_or]
  | other _ ih =>
    simp only [lead]
    rw [Option.isSome_or, ih hk, Bool.or_true]

theorem exists_foundAt_of_path {p : Pattern} {c d : Cursor} {ms : List (Mark × Nat)}
    (h : Path p c d ms) : ∃ f, p.foundAt c = some f := by
  obtain ⟨w, hw⟩ := Option.isSome_iff_exists.mp (isSome_lead_of_path h (k := stopping) rfl)
  exact ⟨_, congrArg (Option.map _) hw⟩

theorem mem_of_mem_apart {resume : Nat} {items : List Found} {f : Found}
    (h : f ∈ apart resume items) : f ∈ items := by
  induction items generalizing resume with
  | nil => cases h
  | cons g rest ih =>
    rw [apart] at h
    split at h
    · rcases List.mem_cons.mp h with rfl | h
      · exact List.mem_cons_self
      · exact List.mem_cons_of_mem _ (ih h)
    · exact List.mem_cons_of_mem _ (ih h)

theorem exists_foundAt_of_mem_findAll {p : Pattern} {line : Line} {f : Found}
    (h : f ∈ p.findAll line) :
    ∃ front c, line = front ++ c.rest ∧ c.col = Line.size front ∧ p.foundAt c = some f := by
  rw [findAll_eq] at h
  obtain ⟨c, hc, hf⟩ := List.mem_filterMap.mp (mem_of_mem_apart h)
  obtain ⟨front, hline, hcol, -⟩ := Cursor.exists_front_of_mem_allFrom hc
  exact ⟨front, c, hline, by rw [hcol, Nat.zero_add], hf⟩

theorem path_of_mem_findAll {p : Pattern} {line : Line} {f : Found} (h : f ∈ p.findAll line) :
    ∃ front c d, line = front ++ c.rest ∧ c.col = Line.size front ∧ Path p c d f.marks ∧
      f.start = c.col := by
  obtain ⟨front, c, hline, hcol, hf⟩ := exists_foundAt_of_mem_findAll h
  obtain ⟨d, hpath, hstart, -⟩ := path_of_foundAt hf
  exact ⟨front, c, d, hline, hcol, hpath, hstart⟩

/-! ## Parts of matches -/

def marks : Pattern → List Mark
  | step _ => []
  | loop _ => []
  | mark m => [m]
  | seq first second => first.marks ++ second.marks
  | alt preferred other => preferred.marks ++ other.marks

def Sets (part : Part) (p : Pattern) : Prop :=
  ∃ m ∈ p.marks, m = .opens part ∨ m = .closes part

instance (part : Part) (p : Pattern) : Decidable (p.Sets part) :=
  inferInstanceAs (Decidable (∃ m ∈ p.marks, _))

namespace Path

variable {p : Pattern} {c d : Cursor} {ms : List (Mark × Nat)}

theorem mem_marks (h : Path p c d ms) {x : Mark × Nat} (hx : x ∈ ms) : x.1 ∈ p.marks := by
  induction h with
  | step => cases hx
  | done => cases hx
  | again _ _ _ ih => exact ih hx
  | mark =>
    rw [List.mem_singleton.mp hx]
    exact List.mem_singleton_self _
  | seq _ _ ih₁ ih₂ =>
    rcases List.mem_append.mp hx with hx | hx
    · exact List.mem_append_left _ (ih₁ hx)
    · exact List.mem_append_right _ (ih₂ hx)
  | preferred _ ih => exact List.mem_append_left _ (ih hx)
  | other _ ih => exact List.mem_append_right _ (ih hx)

theorem exists_mem_of_mem_marks_inOrder {ps : List Pattern} {m : Mark}
    (h : m ∈ (inOrder ps).marks) : ∃ q ∈ ps, m ∈ q.marks := by
  induction ps with
  | nil => cases h
  | cons p ps ih =>
    cases ps with
    | nil => exact ⟨p, List.mem_cons_self, h⟩
    | cons q ps =>
      rcases List.mem_append.mp h with h | h
      · exact ⟨p, List.mem_cons_self, h⟩
      · obtain ⟨r, hr, hm⟩ := ih h
        exact ⟨r, List.mem_cons_of_mem _ hr, hm⟩

theorem exists_append {ps qs : List Pattern} (h : Path (inOrder (ps ++ qs)) c d ms) :
    ∃ e front back, Path (inOrder ps) c e front ∧ Path (inOrder qs) e d back ∧
      ms = front ++ back := by
  induction ps generalizing c ms with
  | nil => exact ⟨c, [], ms, .step rfl rfl, h, rfl⟩
  | cons p ps ih =>
    cases ps with
    | nil =>
      cases qs with
      | nil => exact ⟨d, ms, [], h, .step rfl rfl, by simp⟩
      | cons q qs =>
        cases h with
        | seq hp hqs => exact ⟨_, _, _, hp, hqs, rfl⟩
    | cons p' ps =>
      cases h with
      | @seq _ _ _ _ _ ms₁ ms₂ hp hrest =>
        obtain ⟨e, front, back, hps, hqs, rfl⟩ := ih hrest
        exact ⟨e, ms₁ ++ front, back, .seq hp hps, hqs, (List.append_assoc _ _ _).symm⟩

theorem exists_body {part : Part} {body : Pattern} (h : Path (capture part body) c d ms) :
    ∃ ns, Path body c d ns ∧ ms = (.opens part, c.col) :: ns ++ [(.closes part, d.col)] := by
  cases h with
  | seq opened rest =>
    cases opened
    cases rest with
    | seq hbody closed =>
      cases closed
      exact ⟨_, hbody, rfl⟩

end Path

theorem mem_of_lookup {α β : Type} [BEq α] [LawfulBEq α] {a : α} {b : β} {items : List (α × β)}
    (h : items.lookup a = some b) : (a, b) ∈ items := by
  rw [List.lookup_eq_some_iff] at h
  obtain ⟨front, back, rfl, -⟩ := h
  exact List.mem_append_right _ List.mem_cons_self

/-- A part that nothing else sets starts where the path through what is in front of it ends, and
starts and stops where what is captured does. -/
theorem Path.exists_capture {before after : List Pattern} {part : Part} {body : Pattern}
    {c d : Cursor} {ms : List (Mark × Nat)} {found : Capture}
    (h : Path (inOrder (before ++ capture part body :: after)) c d ms)
    (hbefore : ∀ q ∈ before, ¬q.Sets part) (hafter : ∀ q ∈ after, ¬q.Sets part)
    (hbody : ¬body.Sets part) (hopens : (Mark.opens part, found.start) ∈ ms)
    (hcloses : (Mark.closes part, found.stop) ∈ ms) :
    ∃ c' d' front ns, Path (inOrder before) c c' front ∧ Path body c' d' ns ∧
      found.start = c'.col ∧ found.stop = d'.col := by
  obtain ⟨c', front, rest, hfront, hrest, rfl⟩ := h.exists_append
  rw [← List.singleton_append] at hrest
  obtain ⟨d', mid, back, hmid, hback, rfl⟩ := hrest.exists_append
  obtain ⟨ns, hns, rfl⟩ := hmid.exists_body
  -- The ends of the part are marked around its body and nowhere else.
  have hinside : ∀ x ∈ front ++ ((Mark.opens part, c'.col) :: ns ++ [(Mark.closes part, d'.col)] ++
      back), x.1 = .opens part ∨ x.1 = .closes part →
        x = (.opens part, c'.col) ∨ x = (.closes part, d'.col) := by
    intro x hx hpart
    have hinFront : x ∉ front := by
      intro hx
      obtain ⟨r, hr, hm⟩ := exists_mem_of_mem_marks_inOrder (hfront.mem_marks hx)
      exact hbefore r hr ⟨x.1, hm, hpart⟩
    have hinBack : x ∉ back := by
      intro hx
      obtain ⟨r, hr, hm⟩ := exists_mem_of_mem_marks_inOrder (hback.mem_marks hx)
      exact hafter r hr ⟨x.1, hm, hpart⟩
    have hinBody : x ∉ ns := fun hx => hbody ⟨x.1, hns.mem_marks hx, hpart⟩
    simp only [List.mem_append, List.mem_cons, List.not_mem_nil, or_false] at hx
    tauto
  refine ⟨c', d', front, ns, hfront, hns, ?_, ?_⟩
  · rcases hinside _ hopens (.inl rfl) with heq | heq
    · exact (Prod.mk.inj heq).2
    · cases (Prod.mk.inj heq).1
  · rcases hinside _ hcloses (.inr rfl) with heq | heq
    · cases (Prod.mk.inj heq).1
    · exact (Prod.mk.inj heq).2

theorem Path.exists_part {ps : List Pattern} {part : Part} {body : Pattern} {c d : Cursor}
    {ms : List (Mark × Nat)} {found : Capture} (h : Path (inOrder ps) c d ms)
    (hps : ps.filter (fun q => decide (q.Sets part)) = [capture part body])
    (hbody : ¬body.Sets part) (hopens : (Mark.opens part, found.start) ∈ ms)
    (hcloses : (Mark.closes part, found.stop) ∈ ms) :
    ∃ c' d' ns taken, Path body c' d' ns ∧ c.rest = taken ++ c'.rest ∧
      c'.col = c.col + Line.size taken ∧ found.start = c'.col ∧ found.stop = d'.col := by
  obtain ⟨before, after, rfl, hbefore, -, hafter⟩ := List.filter_eq_cons_iff.mp hps
  obtain ⟨c', d', front, ns, hfront, hns, hstart, hstop⟩ := h.exists_capture
    (by simpa using hbefore) (by simpa using List.filter_eq_nil_iff.mp hafter) hbody hopens hcloses
  obtain ⟨taken, htaken, hcol⟩ := hfront.exists_taken
  exact ⟨c', d', ns, taken, hns, htaken, hcol, hstart, hstop⟩

theorem Found.marks_of_part? {f : Found} {part : Part} {found : Capture}
    (h : f.part? part = some found) :
    (Mark.opens part, found.start) ∈ f.marks ∧ (Mark.closes part, found.stop) ∈ f.marks := by
  simp only [Found.part?, Option.bind_eq_bind, Option.bind_eq_some_iff] at h
  obtain ⟨start, hstart, stop, hstop, heq⟩ := h
  obtain rfl := Option.some.inj heq
  exact ⟨mem_of_lookup hstart, mem_of_lookup hstop⟩

theorem exists_part {ps : List Pattern} {part : Part} {body : Pattern} {line : Line} {f : Found}
    {found : Capture}
    (hps : ps.filter (fun q => decide (q.Sets part)) = [capture part body])
    (hbody : ¬body.Sets part) (h : (inOrder ps).matchLine line = some f)
    (hfound : f.part? part = some found) :
    ∃ front c d ms, line = front ++ c.rest ∧ found.start = Line.size front ∧ Path body c d ms := by
  obtain ⟨e, hpath, -⟩ := path_of_matchLine h
  obtain ⟨hopens, hcloses⟩ := Found.marks_of_part? hfound
  obtain ⟨c, d, ms, front, hbodyPath, hfront, hcol, hstart, -⟩ :=
    hpath.exists_part hps hbody hopens hcloses
  exact ⟨front, c, d, ms, hfront, by rw [hstart, hcol, Nat.zero_add], hbodyPath⟩

/-! ## Single steps -/

theorem Path.exists_one {test : Char → Bool} {c d : Cursor} {ms : List (Mark × Nat)}
    (h : Path (one test) c d ms) :
    ∃ x, c.rest = x :: d.rest ∧ d.col = c.col + x.utf8Size ∧ test x = true ∧ ms = [] := by
  obtain ⟨before, col, rest⟩ := c
  cases h with
  | step hs hd =>
    cases rest with
    | nil => cases hs
    | cons x rest =>
      unfold Step.one at hs
      split at hs
      · rename_i htest
        obtain rfl := Option.some.inj hs
        obtain rfl := Option.some.inj hd
        exact ⟨x, rfl, rfl, by simpa [Cursor.next?] using htest, rfl⟩
      · cases hs

theorem Path.exists_run {test : Char → Bool} {c d : Cursor} {ms : List (Mark × Nat)}
    (h : Path (run test) c d ms) : ∃ taken, c.rest = taken ++ d.rest ∧
      d.col = c.col + Line.size taken ∧ ∀ x ∈ taken, test x = true := by
  generalize hp : run test = p at h
  induction h with
  | done => exact ⟨[], rfl, rfl, List.forall_mem_nil _⟩
  | again hs hd _ ih =>
    cases hp
    obtain ⟨x, hx, hcol, htest, -⟩ := Path.exists_one (Path.step hs hd)
    obtain ⟨taken, hrest, hcol', htaken⟩ := ih rfl
    refine ⟨x :: taken, by rw [hx, hrest]; rfl, ?_, List.forall_mem_cons.mpr ⟨htest, htaken⟩⟩
    rw [hcol', hcol, Line.size, Nat.add_assoc]
  | step | mark | seq | preferred | other => cases hp

theorem Path.eq_of_guarded {test : Cursor → Bool} {c d : Cursor} {ms : List (Mark × Nat)}
    (h : Path (guarded test) c d ms) : d = c ∧ test c = true ∧ ms = [] := by
  cases h with
  | step hs hd =>
    unfold Step.guarded at hs
    split at hs
    · rename_i htest
      obtain rfl := Option.some.inj hs
      exact ⟨(Option.some.inj hd).symm, htest, rfl⟩
    · cases hs

theorem Path.exists_words {ss : List String} {c d : Cursor} {ms : List (Mark × Nat)}
    (h : Path (words ss) c d ms) :
    ∃ w ∈ ss, c.rest = w.toList ++ d.rest ∧ d.col = c.col + Line.size w.toList ∧ ms = [] := by
  cases h with
  | step hs hd =>
    unfold Step.textOf at hs
    obtain ⟨s, hfind, rfl⟩ := Option.map_eq_some_iff.mp hs
    have hprefix := List.find?_some hfind
    obtain ⟨w, hw, rfl⟩ := List.mem_map.mp (List.mem_of_find?_eq_some hfind)
    obtain ⟨rest, hrest⟩ := List.isPrefixOf_iff_prefix.mp hprefix
    obtain ⟨taken, hlength, htaken, hcol⟩ := Cursor.exists_taken hd
    obtain ⟨rfl, -⟩ := List.append_inj (htaken.symm.trans hrest.symm) hlength
    exact ⟨w, hw, htaken, hcol, rfl⟩

/-! ## Matches lie in their line -/

section

variable {p : Pattern} {c d : Cursor} {ms : List (Mark × Nat)} {line : Line} {f : Found}
  {part : Part} {found : Capture}

theorem Path.col_le (h : Path p c d ms) : c.col ≤ d.col := by
  obtain ⟨taken, -, hcol⟩ := h.exists_taken
  omega

theorem Path.mark_le (h : Path p c d ms) {x : Mark × Nat} (hx : x ∈ ms) : x.2 ≤ d.col := by
  induction h with
  | step => cases hx
  | done => cases hx
  | again _ _ _ ih => exact ih hx
  | mark => exact Nat.le_of_eq (congrArg Prod.snd (List.mem_singleton.mp hx))
  | seq _ back ih₁ ih₂ =>
    rcases List.mem_append.mp hx with hx | hx
    · exact Nat.le_trans (ih₁ hx) back.col_le
    · exact ih₂ hx
  | preferred _ ih => exact ih hx
  | other _ ih => exact ih hx

theorem Path.col_le_size (h : Path p c d ms) {front : Line} (hline : line = front ++ c.rest)
    (hcol : c.col = Line.size front) : d.col ≤ line.size := by
  obtain ⟨taken, hrest, htaken⟩ := h.exists_taken
  rw [hline, hrest, Line.size_append, Line.size_append]
  omega

theorem start_le_of_mem_findAll (h : f ∈ p.findAll line) : f.start ≤ line.size := by
  obtain ⟨front, c, d, hline, hcol, hpath, hstart⟩ := path_of_mem_findAll h
  rw [hstart]
  exact Nat.le_trans hpath.col_le (hpath.col_le_size hline hcol)

theorem part_le_of_mem_findAll (h : f ∈ p.findAll line) (hfound : f.part? part = some found) :
    found.start ≤ line.size := by
  obtain ⟨front, c, d, hline, hcol, hpath, -⟩ := path_of_mem_findAll h
  have hopens := (Found.marks_of_part? hfound).1
  exact Nat.le_trans (hpath.mark_le hopens) (hpath.col_le_size hline hcol)

theorem part_le_of_matchLine (h : p.matchLine line = some f)
    (hfound : f.part? part = some found) : found.start ≤ line.size := by
  obtain ⟨d, hpath, -⟩ := path_of_matchLine h
  have hopens := (Found.marks_of_part? hfound).1
  have hd : d.col ≤ line.size := hpath.col_le_size (List.nil_append line).symm rfl
  exact Nat.le_trans (hpath.mark_le hopens) hd

end

end Pattern

end ScopeLint
