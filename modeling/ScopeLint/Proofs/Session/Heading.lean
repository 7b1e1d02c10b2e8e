import ScopeLint.Proofs.Report
import ScopeLint.Proofs.Rulebook.Check
import ScopeLint.Proofs.Rulebook.Number
import ScopeLint.Proofs.Session.Reading

/-!
# Headings in any order of actions

Findings keep the number of the rule that made them, and a report looks the number up in the
rulebook of that moment. So a heading names the rule that made the findings under it as long as no
other rules have been taken since the check.
-/

namespace ScopeLint

theorem Rulebook.get?_of_mem {book : Rulebook} {r : Rule} (hids : book.ids.Nodup)
    (hr : r ∈ book.rules) : book.get? r.id = some r := by
  have hfilter : book.rules.filter (·.id == r.id) = [r] := filter_key_eq_singleton Rule.id hids hr
  rw [get?, ← List.head?_filter, hfilter, List.head?_cons]

namespace Session

/-! ## Actions -/

inductive Action where
  | readUnit (unit : Source)
  | readPath (files : Files) (path : String)
  | useRules (book : Rulebook)
  | readRules (origin : String) (text : List Char)
  | readRuleFile (files : Files) (path : String)
  | readConfiguredRules (files : Files)
  /-- The outlines come in in the order of `arrivals`. -/
  | outline (arrivals : List Source)
  | checkRules (micros : Nat)
  | checkFlow (micros : Nat)
  | report
  | clear

def perform (s : Session) : Action → Except Fault Session
  | .readUnit unit => .ok (s.readUnit unit)
  | .readPath files path => s.readPath files path
  | .useRules book => .ok (s.useRules book)
  | .readRules origin text => s.readRules origin text
  | .readRuleFile files path => s.readRuleFile files path
  | .readConfiguredRules files => s.readConfiguredRules files
  | .outline arrivals => .ok (s.outlineAs arrivals).1
  | .checkRules micros => .ok { s.checkRules with ruleMicros := micros }
  | .checkFlow micros => .ok { s.checkFlow with flowMicros := micros }
  | .report => .ok s
  | .clear => .ok s.clear

/-- An action that fails changes nothing. -/
def apply (s : Session) (a : Action) : Session :=
  match s.perform a with
  | .ok s' => s'
  | .error _ => s

def after (settings : Settings) (acts : List Action) : Session := acts.foldl apply (start settings)

def Action.setsFindings : Action → Bool
  | .checkRules _ | .clear => true
  | _ => false

def Action.takesRules : Action → Bool
  | .useRules _ | .readRules _ _ | .readRuleFile _ _ | .readConfiguredRules _ => true
  | _ => false

/-! ## One action -/

theorem apply_induction {P : Session → Prop} {s : Session} {a : Action} (h : P s)
    (hperform : ∀ s', s.perform a = .ok s' → P s') : P (s.apply a) := by
  unfold apply
  split
  · exact hperform _ ‹_›
  · exact h

theorem perform_takesRules {s s' : Session} {a : Action} (h : a.takesRules = true)
    (hs : s.perform a = .ok s') :
    s' = s ∨ ∃ book, s' = s.useRules book ∧
      (a = .useRules book ∨ ∃ entries, book = Rulebook.ofRules entries) := by
  have hbook : ∀ {text book}, RuleFile.rulebook? text = some book →
      ∃ entries, book = Rulebook.ofRules entries := by
    intro text book hbook
    obtain ⟨entries, -, rfl⟩ := Option.map_eq_some_iff.mp hbook
    exact ⟨entries, rfl⟩
  cases a with
  | useRules book => exact .inr ⟨book, (Except.ok.inj hs).symm, .inl rfl⟩
  | readRules origin text =>
    obtain ⟨book, hread, rfl⟩ := readRules_eq hs
    exact .inr ⟨book, rfl, .inr (hbook hread)⟩
  | readRuleFile files path =>
    obtain ⟨text, book, -, hread, rfl⟩ := readRuleFile_eq hs
    exact .inr ⟨book, rfl, .inr (hbook hread)⟩
  | readConfiguredRules files =>
    rcases readConfiguredRules_eq hs with ⟨-, rfl⟩ | ⟨path, text, book, -, -, hread, rfl⟩
    · exact .inl rfl
    · exact .inr ⟨book, rfl, .inr (hbook hread)⟩
  | _ => cases h

theorem perform_other {s s' : Session} {a : Action} (hfindings : a.setsFindings = false)
    (hrules : a.takesRules = false) (hs : s.perform a = .ok s') :
    s'.book = s.book ∧ s'.ruleFindings = s.ruleFindings := by
  cases a with
  | readPath files path =>
    obtain ⟨unreadable, rfl⟩ := withUnits_readPath hs
    exact ⟨rfl, rfl⟩
  | readUnit _ | outline _ | checkFlow _ | report =>
    obtain rfl := Except.ok.inj hs
    exact ⟨rfl, rfl⟩
  | checkRules _ | clear => cases hfindings
  | _ => cases hrules

theorem ruleFindings_apply {a : Action} (h : a.setsFindings = false) (s : Session) :
    (s.apply a).ruleFindings = s.ruleFindings := by
  refine apply_induction (P := fun t => t.ruleFindings = s.ruleFindings) rfl fun s' hs => ?_
  cases hrules : a.takesRules with
  | true =>
    rcases perform_takesRules hrules hs with rfl | ⟨book, rfl, -⟩
    · rfl
    · rfl
  | false => exact (perform_other h hrules hs).2

theorem book_apply {a : Action} (hfindings : a.setsFindings = false) (hrules : a.takesRules = false)
    (s : Session) : (s.apply a).book = s.book :=
  apply_induction (P := fun t => t.book = s.book) rfl fun _ hs =>
    (perform_other hfindings hrules hs).1

/-! ## Runs -/

variable {settings : Settings} {acts : List Action}

theorem after_concat_action (settings : Settings) (acts : List Action) (a : Action) :
    after settings (acts ++ [a]) = (after settings acts).apply a := List.foldl_append

theorem book_foldl {rest : List Action} (s : Session)
    (hfindings : ∀ a ∈ rest, a.setsFindings = false) (hrules : ∀ a ∈ rest, a.takesRules = false) :
    (rest.foldl apply s).book = s.book := by
  induction rest generalizing s with
  | nil => rfl
  | cons a rest ih =>
    rw [List.forall_mem_cons] at hfindings hrules
    rw [List.foldl_cons, ih _ hfindings.2 hrules.2, book_apply hfindings.1 hrules.1]

theorem ruleFindings_after (settings : Settings) (acts : List Action) :
    (after settings acts).ruleFindings = ∅ ∨
      ∃ front micros rest, acts = front ++ .checkRules micros :: rest ∧
        (∀ a ∈ rest, a.setsFindings = false) ∧
        (after settings acts).ruleFindings =
          (after settings front).outlines.map (after settings front).book.deduplicate.check := by
  induction acts using List.reverseRecOn with
  | nil => exact .inl rfl
  | append_singleton acts a ih =>
    rw [after_concat_action]
    by_cases ha : a.setsFindings
    · cases a with
      | checkRules micros => exact .inr ⟨acts, micros, [], rfl, by simp, rfl⟩
      | clear => exact .inl rfl
      | _ => cases ha
    · have ha : a.setsFindings = false := by simpa using ha
      rw [ruleFindings_apply ha]
      rcases ih with hempty | ⟨front, micros, rest, rfl, hrest, hfindings⟩
      · exact .inl hempty
      · refine .inr ⟨front, micros, rest ++ [a], by simp, ?_, hfindings⟩
        intro b hb
        rcases List.mem_append.mp hb with hb | hb
        · exact hrest b hb
        · rwa [List.mem_singleton.mp hb]

theorem nodup_ids_after_actions (h : ∀ book, .useRules book ∈ acts → book.ids.Nodup) :
    (after settings acts).book.ids.Nodup := by
  induction acts using List.reverseRecOn with
  | nil => exact List.nodup_nil
  | append_singleton acts a ih =>
    have hids := ih fun book hbook => h book (List.mem_append_left _ hbook)
    rw [after_concat_action]
    by_cases hrules : a.takesRules
    · refine apply_induction (P := fun t => t.book.ids.Nodup) hids fun s' hs => ?_
      rcases perform_takesRules hrules hs with rfl | ⟨book, rfl, hgiven⟩
      · exact hids
      · unfold useRules
        rcases hgiven with rfl | ⟨entries, rfl⟩
        · exact h book (by simp)
        · rw [Rulebook.ids_ofRules]
          exact List.nodup_range'
    · by_cases hfindings : a.setsFindings
      · cases a with
        | checkRules micros => exact Rulebook.nodup_ids_deduplicate hids
        | clear => exact List.nodup_nil
        | _ => cases hfindings
      · rwa [book_apply (by simpa using hfindings) (by simpa using hrules)]

/-! ## Headings -/

/-- How a finding came to stand in a block: the last check of rules put a rule to the outline of the
unit, and the block has the heading that the number of the rule has by now. -/
structure Made (settings : Settings) (acts : List Action) (b : Report.Block) (f : Finding)
    (front rest : List Action) (micros : Nat) (o : Outline) (r : Rule) : Prop where
  acts_eq : acts = front ++ .checkRules micros :: rest
  last : ∀ a ∈ rest, a.setsFindings = false
  outlined : (b.unit, o) ∈ (after settings front).outlines.entries
  applied : r ∈ (after settings front).book.deduplicate.rules
  found : f ∈ r.check o
  heading : b.heading = Report.ruleHeading (after settings acts).book r.id

theorem exists_made {b : Report.Block} (hb : b ∈ (after settings acts).report.ruleBlocks)
    {f : Finding} (hf : f ∈ b.findings) :
    ∃ front rest micros o r, Made settings acts b f front rest micros o r := by
  obtain ⟨entry, hentry, group, hgroup, rfl⟩ := Report.exists_of_mem_ruleBlocks hb
  simp only [report] at hentry hf ⊢
  rcases ruleFindings_after settings acts with hempty | ⟨front, micros, rest, hacts, hrest, hchecked⟩
  · rw [hempty] at hentry
    cases hentry
  · rw [hchecked] at hentry
    obtain ⟨⟨unit, o⟩, ho, rfl⟩ := List.mem_map.mp hentry
    have hgrouped := Rulebook.grouped_check (after settings front).book.deduplicate o
    obtain ⟨-, hget⟩ := hgrouped.mem_groups_iff.mp hgroup
    rw [← hget, Rulebook.get_check, List.mem_flatMap] at hf
    obtain ⟨r, hr, hfound⟩ := hf
    obtain ⟨happlied, hid⟩ := List.mem_filter.mp hr
    refine ⟨front, rest, micros, o, r, hacts, hrest, ho, happlied, hfound, ?_⟩
    simp only [decide_eq_true_eq] at hid
    rw [hid]

theorem Made.heading_eq {b : Report.Block} {f : Finding} {front rest : List Action} {micros : Nat}
    {o : Outline} {r : Rule} (h : Made settings acts b f front rest micros o r)
    (hids : ∀ book, .useRules book ∈ front → book.ids.Nodup)
    (hrules : ∀ a ∈ rest, a.takesRules = false) : b.heading = ⟨r.name, r.description⟩ := by
  have hbook : (after settings acts).book = (after settings front).book.deduplicate := by
    unfold after
    rw [h.acts_eq, List.foldl_append, List.foldl_cons, book_foldl _ h.last hrules]
    rfl
  have hnodup : (after settings front).book.deduplicate.ids.Nodup :=
    Rulebook.nodup_ids_deduplicate (nodup_ids_after_actions hids)
  rw [h.heading, hbook, Report.ruleHeading, Rulebook.get?_of_mem hnodup h.applied]

/-- A finding that is shown was made by a rule of the last check, and it is shown under the name and
the description of that rule if no rules have been taken since and no two rules share a number. -/
theorem heading_of_mem_ruleBlocks {b : Report.Block}
    (hb : b ∈ (after settings acts).report.ruleBlocks) {f : Finding} (hf : f ∈ b.findings) :
    ∃ front rest micros o r, Made settings acts b f front rest micros o r ∧
      ((∀ book, .useRules book ∈ front → book.ids.Nodup) →
        (∀ a ∈ rest, a.takesRules = false) → b.heading = ⟨r.name, r.description⟩) := by
  obtain ⟨front, rest, micros, o, r, hmade⟩ := exists_made hb hf
  exact ⟨front, rest, micros, o, r, hmade, hmade.heading_eq⟩

def jump : Source := ⟨"unit.cpp", ["void f() \x7b goto end; \x7d".toList]⟩

def jumpFinding : Finding := .warningAt 0 11 "`goto` is used"

def checkedJump : List Action :=
  [.useRules (.ofRules [⟨0, .noGoto, "NoGoto", .all, none⟩]), .readUnit jump, .outline [jump],
    .checkRules 0]

def relabelledJump : List Action :=
  checkedJump ++ [.useRules (.ofRules [⟨0, .noAuto, "NoAuto", .all, none⟩])]

theorem heading_checkedJump :
    ∃ b ∈ (after .standard checkedJump).report.ruleBlocks, jumpFinding ∈ b.findings ∧
      b.heading = ⟨"NoGoto", "`goto` must not be used in Function"⟩ ∧
      ∃ front rest micros o r, Made .standard checkedJump b jumpFinding front rest micros o r ∧
        ((∀ book, .useRules book ∈ front → book.ids.Nodup) →
          (∀ a ∈ rest, a.takesRules = false) → b.heading = ⟨r.name, r.description⟩) := by
  have hblock : ⟨"unit.cpp", ⟨"NoGoto", "`goto` must not be used in Function"⟩, [jumpFinding]⟩ ∈
      (after .standard checkedJump).report.ruleBlocks := by decide +kernel
  exact ⟨_, hblock, by simp, rfl, heading_of_mem_ruleBlocks hblock (by simp)⟩

/-- The finding of a rule is shown under one that no check has put to the unit. -/
theorem heading_relabelledJump :
    ∃ b ∈ (after .standard relabelledJump).report.ruleBlocks, jumpFinding ∈ b.findings ∧
      b.heading = ⟨"NoAuto", "Variable must not be declared with `auto`"⟩ ∧
      ∀ front micros rest, relabelledJump = front ++ .checkRules micros :: rest →
        ∀ r ∈ (after .standard front).book.deduplicate.rules,
          b.heading ≠ ⟨r.name, r.description⟩ := by
  have hblock : ⟨"unit.cpp", ⟨"NoAuto", "Variable must not be declared with `auto`"⟩,
      [jumpFinding]⟩ ∈ (after .standard relabelledJump).report.ruleBlocks := by decide +kernel
  refine ⟨_, hblock, by simp, rfl, ?_⟩
  intro front micros rest h
  have hfront : front = checkedJump.take 3 := by
    simp [relabelledJump, checkedJump, List.cons_eq_append_iff] at h
    exact h.1
  rw [hfront]
  decide +kernel

end Session

end ScopeLint
