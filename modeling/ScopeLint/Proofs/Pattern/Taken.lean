import ScopeLint.Proofs.Pattern

/-!
# What patterns take

A pattern whose steps take nothing but certain characters matches stretches of such characters, and
so does each part of it.
-/

namespace ScopeLint

def Step.TakesOnly (ok : Char → Prop) (s : Step) : Prop :=
  ∀ c n, s c = some n → ∀ x ∈ c.rest.take n, ok x

namespace Step

variable {ok : Char → Prop}

@[simp] theorem takesOnly_guarded (test : Cursor → Bool) : (guarded test).TakesOnly ok := by
  intro c n h x hx
  unfold guarded at h
  split at h
  · obtain rfl := Option.some.inj h
    cases hx
  · cases h

theorem takesOnly_one {test : Char → Bool} (h : ∀ x, test x = true → ok x) :
    (one test).TakesOnly ok := by
  intro c n hn x hx
  unfold one Cursor.next? at hn
  split at hn
  · rename_i htest
    obtain rfl := Option.some.inj hn
    cases hrest : c.rest with
    | nil => simp [hrest] at hx
    | cons y rest =>
      rw [hrest] at hx htest
      obtain rfl : x = y := by simpa using hx
      exact h x (by simpa using htest)
  · cases hn

theorem takesOnly_text {s : Line} (h : ∀ x ∈ s, ok x) : (text s).TakesOnly ok := by
  intro c n hn x hx
  unfold text at hn
  split at hn
  · rename_i hprefix
    obtain rfl := Option.some.inj hn
    rw [List.prefix_iff_eq_take.mp (List.isPrefixOf_iff_prefix.mp hprefix)] at h
    exact h x hx
  · cases hn

theorem takesOnly_textOf {ss : List Line} (h : ∀ s ∈ ss, ∀ x ∈ s, ok x) :
    (textOf ss).TakesOnly ok := by
  intro c n hn x hx
  unfold textOf at hn
  obtain ⟨s, hs, rfl⟩ := Option.map_eq_some_iff.mp hn
  have hprefix : s <+: c.rest := List.isPrefixOf_iff_prefix.mp (by simpa using List.find?_some hs)
  refine h s (List.mem_of_find?_eq_some hs) x ?_
  rwa [List.prefix_iff_eq_take.mp hprefix]

theorem takesOnly_orElse {first second : Step} (hfirst : first.TakesOnly ok)
    (hsecond : second.TakesOnly ok) : (orElse first second).TakesOnly ok := by
  intro c n hn x hx
  unfold orElse at hn
  rcases Option.or_eq_some_iff.mp hn with hn | ⟨-, hn⟩
  · exact hfirst c n hn x hx
  · exact hsecond c n hn x hx

end Step

namespace Pattern

def All (P : Step → Prop) : Pattern → Prop
  | step s => P s
  | loop s => P s
  | mark _ => True
  | seq first second => first.All P ∧ second.All P
  | alt preferred other => preferred.All P ∧ other.All P

/-- A pattern all of whose steps only take characters with the property. -/
def TakesOnly (ok : Char → Prop) (p : Pattern) : Prop := p.All (Step.TakesOnly ok)

variable {ok : Char → Prop}

theorem Path.exists_takenOnly {p : Pattern} {c d : Cursor} {ms : List (Mark × Nat)}
    (h : Path p c d ms) (hp : p.TakesOnly ok) :
    ∃ taken, c.rest = taken ++ d.rest ∧ d.col = c.col + Line.size taken ∧ ∀ x ∈ taken, ok x := by
  have hstep : ∀ {s : Step} {c d : Cursor} {n : Nat}, s.TakesOnly ok → s c = some n →
      c.forward? n = some d →
      ∃ taken, c.rest = taken ++ d.rest ∧ d.col = c.col + Line.size taken ∧ ∀ x ∈ taken, ok x := by
    intro s c d n hs hn hd
    obtain ⟨taken, hlength, hrest, hcol⟩ := Cursor.exists_taken hd
    refine ⟨taken, hrest, hcol, fun x hx => hs c n hn x ?_⟩
    rwa [hrest, List.take_left' hlength]
  have happend : ∀ {c d e : Cursor},
      (∃ taken, c.rest = taken ++ d.rest ∧ d.col = c.col + Line.size taken ∧ ∀ x ∈ taken, ok x) →
      (∃ taken, d.rest = taken ++ e.rest ∧ e.col = d.col + Line.size taken ∧ ∀ x ∈ taken, ok x) →
      ∃ taken, c.rest = taken ++ e.rest ∧ e.col = c.col + Line.size taken ∧ ∀ x ∈ taken, ok x := by
    rintro c d e ⟨front, hfront, hcol, hok⟩ ⟨back, hback, hcol', hok'⟩
    refine ⟨front ++ back, ?_, ?_, ?_⟩
    · rw [hfront, hback, List.append_assoc]
    · rw [hcol', hcol, Line.size_append, Nat.add_assoc]
    · intro x hx
      rcases List.mem_append.mp hx with hx | hx
      · exact hok x hx
      · exact hok' x hx
  induction h with
  | step hs hd => exact hstep hp hs hd
  | done | mark => exact ⟨[], rfl, rfl, by simp⟩
  | again hs hd _ ih => exact happend (hstep hp hs hd) (ih hp)
  | seq _ _ ih₁ ih₂ => exact happend (ih₁ hp.1) (ih₂ hp.2)
  | preferred _ ih => exact ih hp.1
  | other _ ih => exact ih hp.2

theorem Path.rest_eq_nil {ps : List Pattern} {c d : Cursor} {ms : List (Mark × Nat)}
    (h : Path (inOrder ps) c d ms) (hlast : ps.getLast? = some lineEnd) : d.rest = [] := by
  induction ps generalizing c ms with
  | nil => cases hlast
  | cons p ps ih =>
    cases ps with
    | nil =>
      obtain rfl : p = lineEnd := Option.some.inj hlast
      obtain ⟨rfl, hend, -⟩ := h.eq_of_guarded
      exact List.isEmpty_iff.mp hend
    | cons q ps =>
      cases h with
      | seq _ hrest => exact ih hrest hlast

/-! ## Parts of matches -/

theorem Path.marks_eq_nil {p : Pattern} {c d : Cursor} {ms : List (Mark × Nat)}
    (h : Path p c d ms) (hp : p.marks = []) : ms = [] := by
  refine List.eq_nil_iff_forall_not_mem.mpr fun x hx => ?_
  have hmark := h.mem_marks hx
  rw [hp] at hmark
  cases hmark

end Pattern

def Capture.Holds (ok : Char → Prop) (line : Line) (found : Capture) : Prop :=
  ∃ front mid back, line = front ++ mid ++ back ∧ found.start = Line.size front ∧
    found.stop = Line.size front + Line.size mid ∧ ∀ x ∈ mid, ok x

namespace Pattern

variable {ok : Char → Prop} {line : Line} {f : Found} {found : Capture}

theorem Path.holds_part {ps : List Pattern} {part : Part} {body : Pattern} {c d : Cursor}
    {ms : List (Mark × Nat)} {front : Line} (h : Path (inOrder ps) c d ms)
    (hline : line = front ++ c.rest) (hcol : c.col = Line.size front)
    (hps : ps.filter (fun q => decide (q.Sets part)) = [capture part body])
    (hbody : ¬body.Sets part) (hok : body.TakesOnly ok)
    (hopens : (Mark.opens part, found.start) ∈ ms)
    (hcloses : (Mark.closes part, found.stop) ∈ ms) : found.Holds ok line := by
  obtain ⟨c', d', ns, taken, hpath, htaken, hcol', hstart, hstop⟩ :=
    h.exists_part hps hbody hopens hcloses
  obtain ⟨mid, hmid, hcol'', hmidOk⟩ := hpath.exists_takenOnly hok
  refine ⟨front ++ taken, mid, d'.rest, ?_, ?_, ?_, hmidOk⟩
  · rw [hline, htaken, hmid, List.append_assoc, List.append_assoc]
  · rw [hstart, hcol', hcol, Line.size_append]
  · rw [hstop, hcol'', hcol', hcol, Line.size_append]

theorem holds_of_matchLine {ps : List Pattern} {part : Part} {body : Pattern}
    (h : (inOrder ps).matchLine line = some f)
    (hps : ps.filter (fun q => decide (q.Sets part)) = [capture part body])
    (hbody : ¬body.Sets part) (hok : body.TakesOnly ok) (hfound : f.part? part = some found) :
    found.Holds ok line := by
  obtain ⟨d, hpath, -⟩ := path_of_matchLine h
  obtain ⟨hopens, hcloses⟩ := Found.marks_of_part? hfound
  exact @Path.holds_part _ _ _ _ _ _ _ _ _ [] hpath rfl rfl hps hbody hok hopens hcloses

theorem holds_of_mem_findAll {ps : List Pattern} {part : Part} {body : Pattern}
    (h : f ∈ (inOrder ps).findAll line)
    (hps : ps.filter (fun q => decide (q.Sets part)) = [capture part body])
    (hbody : ¬body.Sets part) (hok : body.TakesOnly ok) (hfound : f.part? part = some found) :
    found.Holds ok line := by
  obtain ⟨front, c, d, hline, hcol, hpath, -⟩ := path_of_mem_findAll h
  obtain ⟨hopens, hcloses⟩ := Found.marks_of_part? hfound
  exact hpath.holds_part hline hcol hps hbody hok hopens hcloses

end Pattern

end ScopeLint
