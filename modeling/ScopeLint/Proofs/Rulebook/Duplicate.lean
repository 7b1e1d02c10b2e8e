import ScopeLint.Proofs.Rule.Check
import ScopeLint.Proofs.Rulebook.Check
import ScopeLint.Proofs.Rulebook.Conflict

/-!
# What duplicates find

A rule that duplicates another finds what the other finds, unless the rules are unknown: these find
their names, which duplicates need not have in common. So to drop duplicates loses nothing but names
of unknown rules.
-/

namespace ScopeLint

/-! ## Duplicates -/

namespace Rule

variable {a b : Rule}

theorem duplicates_iff : a.duplicates b = true ↔
    a.kind = b.kind ∧ a.parameter = b.parameter ∧ a.appliedTo = b.appliedTo := by
  simp [duplicates, and_assoc]

theorem duplicates_self (r : Rule) : r.duplicates r = true := duplicates_iff.mpr ⟨rfl, rfl, rfl⟩

/-- No check but that of unknown rules asks for the name of its rule, and none for its number. -/
theorem check_eq_of_duplicates (h : a.duplicates b = true) (hkind : a.kind ≠ .unknown)
    (o : Outline) : a.check o = b.check o := by
  obtain ⟨id, kind, name, appliedTo, parameter⟩ := a
  obtain ⟨id', kind', name', appliedTo', parameter'⟩ := b
  obtain ⟨rfl, rfl, rfl⟩ : kind = kind' ∧ parameter = parameter' ∧ appliedTo = appliedTo' :=
    duplicates_iff.mp h
  cases kind
  case unknown => exact absurd rfl hkind
  all_goals rfl

theorem not_conflictsWith_of_unknown (h : a.kind = .unknown) (b : Rule) :
    a.conflictsWith b = false := by
  unfold conflictsWith
  rw [h]
  cases b.kind <;> rfl

end Rule

theorem Finding.unknownRule_injective : Function.Injective unknownRule := by
  intro a b h
  have hcontent : "Unknown rule `" ++ a ++ "`" = "Unknown rule `" ++ b ++ "`" :=
    congrArg Finding.content h
  simpa using hcontent

namespace Rulebook

variable {book : Rulebook} {entries kept rules : List Rule} {r e : Rule}

/-! ## Unknown rules of a file -/

theorem Keeps.mem_entries (h : Keeps entries kept) (he : e ∈ kept) : e ∈ entries := by
  induction h with
  | nil => cases he
  | accept _ _ ih =>
    rcases List.mem_append.mp he with he | he
    · exact List.mem_append_left _ (ih he)
    · exact List.mem_append_right _ he
  | refuse _ _ ih => exact List.mem_append_left _ (ih he)

theorem Keeps.mem_of_unknown (h : Keeps entries kept) (he : e ∈ entries)
    (hkind : e.kind = .unknown) : e ∈ kept := by
  induction h with
  | nil => cases he
  | accept _ _ ih =>
    rcases List.mem_append.mp he with he | he
    · exact List.mem_append_left _ (ih he)
    · exact List.mem_append_right _ he
  | refuse _ hodds ih =>
    rcases List.mem_append.mp he with he | he
    · exact ih he
    · obtain ⟨t, -, hconflict⟩ := hodds
      rw [← List.mem_singleton.mp he, Rule.not_conflictsWith_of_unknown hkind] at hconflict
      cases hconflict

theorem exists_of_mem_numbered (h : r ∈ numbered rules) :
    ∃ e ∈ rules, ∃ id, { e with id := id } = r := by
  obtain ⟨i, hi, rfl⟩ := List.mem_mapIdx.mp h
  exact ⟨rules[i], List.getElem_mem hi, i + 1, rfl⟩

theorem exists_mem_numbered (h : e ∈ rules) : ∃ id, { e with id := id } ∈ numbered rules := by
  obtain ⟨i, hi, rfl⟩ := List.mem_iff_getElem.mp h
  exact ⟨i + 1, List.mem_mapIdx.mpr ⟨i, hi, rfl⟩⟩

theorem exists_of_mem_ofRules (h : r ∈ (ofRules entries).rules) :
    ∃ e ∈ entries, ∃ id, { e with id := id } = r := by
  obtain ⟨kept, hkept, hrules⟩ := exists_keeps_ofRules entries
  rw [hrules] at h
  obtain ⟨e, he, hid⟩ := exists_of_mem_numbered h
  exact ⟨e, hkept.mem_entries he, hid⟩

theorem exists_mem_ofRules_of_unknown (he : e ∈ entries) (hkind : e.kind = .unknown) :
    ∃ id, { e with id := id } ∈ (ofRules entries).rules := by
  obtain ⟨kept, hkept, hrules⟩ := exists_keeps_ofRules entries
  rw [hrules]
  exact exists_mem_numbered (hkept.mem_of_unknown he hkind)

/-! ## Dropping duplicates -/

theorem mem_deduplicated_of_mem (h : r ∈ kept) : r ∈ deduplicated kept rules := by
  induction rules generalizing kept with
  | nil => exact h
  | cons t rest ih =>
    rw [deduplicated]
    split
    · exact ih h
    · exact ih (List.mem_append_left _ h)

theorem exists_duplicate_of_mem (kept : List Rule) (h : r ∈ rules) :
    ∃ t ∈ deduplicated kept rules, r.duplicates t = true := by
  induction rules generalizing kept with
  | nil => cases h
  | cons t rest ih =>
    rw [deduplicated]
    split
    · rename_i hany
      rcases List.mem_cons.mp h with rfl | h
      · obtain ⟨t, ht, hdup⟩ := List.any_eq_true.mp hany
        exact ⟨t, mem_deduplicated_of_mem ht, hdup⟩
      · exact ih _ h
    · rcases List.mem_cons.mp h with rfl | h
      · exact ⟨r, mem_deduplicated_of_mem (List.mem_append_right _ List.mem_cons_self),
          r.duplicates_self⟩
      · exact ih _ h

/-! ## What is found -/

variable {s : Source} {o : Outline} {f : Finding}

theorem unknownRule_mem_check_iff (h : o.Placed) {name : String} :
    .unknownRule name ∈ book.check o ↔ ∃ r ∈ book.rules, r.kind = .unknown ∧ r.name = name := by
  rw [mem_check_iff]
  constructor
  · rintro ⟨r, hr, hf⟩
    by_cases hkind : r.kind = .unknown
    · rw [Rule.check_of_unknown hkind, List.mem_singleton] at hf
      exact ⟨r, hr, hkind, (Finding.unknownRule_injective hf).symm⟩
    · exact absurd rfl ((Rule.warnsIn_of_mem_check h hkind hf).ne_unknownRule name)
  · rintro ⟨r, hr, hkind, rfl⟩
    exact ⟨r, hr, by rw [Rule.check_of_unknown hkind, List.mem_singleton]⟩

theorem mem_check_of_mem_check_deduplicate (hf : f ∈ book.deduplicate.check o) :
    f ∈ book.check o := by
  obtain ⟨r, hr, hf⟩ := mem_check_iff.mp hf
  exact mem_check_iff.mpr ⟨r, mem_of_mem_deduplicate hr, hf⟩

/-- What is lost with the duplicates is the name of an unknown rule. -/
theorem mem_check_deduplicate_or (hf : f ∈ book.check o) :
    f ∈ book.deduplicate.check o ∨
      ∃ r ∈ book.rules, r.kind = .unknown ∧ f = .unknownRule r.name := by
  obtain ⟨r, hr, hf⟩ := mem_check_iff.mp hf
  by_cases hkind : r.kind = .unknown
  · rw [Rule.check_of_unknown hkind, List.mem_singleton] at hf
    exact .inr ⟨r, hr, hkind, hf⟩
  · obtain ⟨t, ht, hdup⟩ := exists_duplicate_of_mem [] hr
    rw [Rule.check_eq_of_duplicates hdup hkind] at hf
    exact .inl (mem_check_iff.mpr ⟨t, ht, hf⟩)

/-- Unknown rules that duplicate each other have the same name. -/
def NamesAgree (entries : List Rule) : Prop :=
  ∀ a ∈ entries, ∀ b ∈ entries, a.kind = .unknown → a.duplicates b = true → a.name = b.name

instance (entries : List Rule) : Decidable (NamesAgree entries) :=
  inferInstanceAs (Decidable (∀ a ∈ entries, ∀ b ∈ entries, _ → _ → _))

theorem unknownRule_mem_check_ofRules (h : o.Placed) {name : String} :
    .unknownRule name ∈ (ofRules entries).check o ↔
      ∃ e ∈ entries, e.kind = .unknown ∧ e.name = name := by
  rw [unknownRule_mem_check_iff h]
  constructor
  · rintro ⟨r, hr, hkind, rfl⟩
    obtain ⟨e, he, id, rfl⟩ := exists_of_mem_ofRules hr
    exact ⟨e, he, hkind, rfl⟩
  · rintro ⟨e, he, hkind, rfl⟩
    obtain ⟨id, hid⟩ := exists_mem_ofRules_of_unknown he hkind
    exact ⟨_, hid, hkind, rfl⟩

theorem NamesAgree.unknownRule_mem (hnames : NamesAgree entries) (h : o.Placed) (he : e ∈ entries)
    (hkind : e.kind = .unknown) :
    .unknownRule e.name ∈ (ofRules entries).deduplicate.check o := by
  obtain ⟨id, hid⟩ := exists_mem_ofRules_of_unknown he hkind
  obtain ⟨t, ht, hdup⟩ := exists_duplicate_of_mem [] hid
  obtain ⟨e', he', id', rfl⟩ := exists_of_mem_ofRules (mem_of_mem_deduplicate ht)
  have hname : e.name = e'.name := hnames e he e' he' hkind hdup
  have hkind' : e'.kind = .unknown := (Rule.duplicates_iff.mp hdup).1.symm.trans hkind
  exact (unknownRule_mem_check_iff h).mpr ⟨_, ht, hkind', hname.symm⟩

/-- When duplicates are dropped from the rules of a file, nothing is lost of what they find in a
unit but names of unknown rules, and the names that are still found are those of the rules that are
left. So nothing is lost, and each name that is not known is found, if unknown rules that duplicate
each other have the same name. -/
theorem mem_check_deduplicate (h : Outline.ofSource s = .ok o) {text : List Char}
    (hentries : RuleFile.rules? text = some entries) (hbook : RuleFile.rulebook? text = some book) :
    (∀ f, f ∈ book.check o ↔ f ∈ book.deduplicate.check o ∨
        ∃ e ∈ entries, e.kind = .unknown ∧ f = .unknownRule e.name) ∧
      (∀ name, .unknownRule name ∈ book.deduplicate.check o ↔
        ∃ r ∈ book.deduplicate.rules, r.kind = .unknown ∧ r.name = name) ∧
      (NamesAgree entries →
        (∀ f, f ∈ book.check o ↔ f ∈ book.deduplicate.check o) ∧
          ∀ e ∈ entries, e.kind = .unknown → .unknownRule e.name ∈ book.deduplicate.check o) := by
  have hplaced := Outline.placed_ofSource h
  obtain rfl : ofRules entries = book := by
    rw [RuleFile.rulebook?, hentries, Option.map_some] at hbook
    exact Option.some.inj hbook
  have hlost : ∀ f, f ∈ (ofRules entries).check o ↔ f ∈ (ofRules entries).deduplicate.check o ∨
      ∃ e ∈ entries, e.kind = .unknown ∧ f = .unknownRule e.name := by
    intro f
    constructor
    · intro hf
      rcases mem_check_deduplicate_or hf with hf' | ⟨r, hr, hkind, rfl⟩
      · exact .inl hf'
      · obtain ⟨e, he, hkind, hname⟩ := (unknownRule_mem_check_ofRules hplaced).mp hf
        exact .inr ⟨e, he, hkind, by rw [hname]⟩
    · rintro (hf | ⟨e, he, hkind, rfl⟩)
      · exact mem_check_of_mem_check_deduplicate hf
      · exact (unknownRule_mem_check_ofRules hplaced).mpr ⟨e, he, hkind, rfl⟩
  refine ⟨hlost, fun name => unknownRule_mem_check_iff hplaced, ?_⟩
  intro hnames
  have hkept : ∀ e ∈ entries, e.kind = .unknown →
      .unknownRule e.name ∈ (ofRules entries).deduplicate.check o :=
    fun e he hkind => hnames.unknownRule_mem hplaced he hkind
  refine ⟨fun f => ⟨fun hf => ?_, mem_check_of_mem_check_deduplicate⟩, hkept⟩
  rcases (hlost f).mp hf with hf | ⟨e, he, hkind, rfl⟩
  · exact hf
  · exact hkept e he hkind

def oneVariable : Source := ⟨"unit.cpp", ["int a;".toList]⟩

def fileOfNames (names : List String) : List Char :=
  let entries := names.map fun name => "\x7b\"rule\":\"" ++ name ++ "\"\x7d"
  ("\x7b\"rules\":[" ++ ",".intercalate entries ++ "]\x7d").toList

def unknownTwice : List Rule :=
  [⟨0, .unknown, "Foo", .all, none⟩, ⟨0, .noGoto, "NoGoto", .all, none⟩,
    ⟨0, .unknown, "Foo", .all, none⟩]

theorem mem_check_deduplicate_unknownTwice :
    ∃ o, Outline.ofSource oneVariable = .ok o ∧
      RuleFile.rules? (fileOfNames ["Foo", "NoGoto", "Foo"]) = some unknownTwice ∧
      NamesAgree unknownTwice ∧ (ofRules unknownTwice).deduplicate.rules.length = 2 ∧
      (∀ f, f ∈ (ofRules unknownTwice).check o ↔ f ∈ (ofRules unknownTwice).deduplicate.check o) ∧
      ∀ e ∈ unknownTwice, e.kind = .unknown →
        .unknownRule e.name ∈ (ofRules unknownTwice).deduplicate.check o := by
  have hentries : RuleFile.rules? (fileOfNames ["Foo", "NoGoto", "Foo"]) =
      some unknownTwice := by decide +kernel
  have hbook : RuleFile.rulebook? (fileOfNames ["Foo", "NoGoto", "Foo"]) =
      some (ofRules unknownTwice) := by rw [RuleFile.rulebook?, hentries, Option.map_some]
  have hnames : NamesAgree unknownTwice := by decide
  obtain ⟨o, h, -⟩ : ∃ o, Outline.ofSource oneVariable = .ok o ∧ o.scopes.size = 2 :=
    Outline.exists_ofSource (by decide +kernel)
  exact ⟨o, h, hentries, hnames, by decide,
    (mem_check_deduplicate h hentries hbook).2.2 hnames⟩

def twoUnknown : List Rule :=
  [⟨0, .unknown, "Foo", .all, none⟩, ⟨0, .unknown, "Bar", .all, none⟩]

/-- Of two names that are not known only the first is found when duplicates have been dropped. -/
theorem check_deduplicate_twoUnknown :
    RuleFile.rulebook? (fileOfNames ["Foo", "Bar"]) = some (ofRules twoUnknown) ∧
      ∃ o, Outline.ofSource oneVariable = .ok o ∧
        .unknownRule "Bar" ∈ (ofRules twoUnknown).check o ∧
          .unknownRule "Bar" ∉ (ofRules twoUnknown).deduplicate.check o := by
  have hentries : RuleFile.rules? (fileOfNames ["Foo", "Bar"]) = some twoUnknown := by
    decide +kernel
  refine ⟨?_, Outline.exists_ofSource (by decide +kernel)⟩
  rw [RuleFile.rulebook?, hentries, Option.map_some]

end Rulebook

end ScopeLint
