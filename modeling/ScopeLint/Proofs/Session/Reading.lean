import Mathlib.Data.List.Forall2
import ScopeLint.Proofs.Files
import ScopeLint.Session

/-!
# What reading changes

To read a path adds units and nothing else, and to read rules changes the rulebook and nothing else.
A text is a rule file if it is a record or a list with a list of rules, and every item of that list
is a rule.
-/

namespace ScopeLint

/-! ## Rule files -/

namespace RuleFile

/-- The text is a rule file with these rules, one for each item of its list. -/
def Lists (text : List Char) (rules : List Rule) : Prop :=
  ∃ json items, JsonText.read? text = some json ∧
    fields? ["rules"] json = some [some (.list items)] ∧
    List.Forall₂ (fun item r => rule? item = some r) items rules

end RuleFile

def Files.Readable (files : Files) (path : String) : Prop :=
  ∃ entry, files.at? path = some entry ∧ entry ≠ .locked

def Files.HasRules (files : Files) (path : String) (rules : List Rule) : Prop :=
  ∃ bytes text, files.read? path = some bytes ∧ Utf8.decode? bytes = some text ∧
    RuleFile.Lists text rules

/-- The rules of the file that the settings name, and none if they name no file. -/
def Settings.HasRules (settings : Settings) (files : Files) (rules : List Rule) : Prop :=
  match settings.rulesPath with
  | some path => files.HasRules path rules
  | none => rules = []

namespace Session

variable {s s' : Session} {files : Files} {path : String}

/-! ## Units -/

def unitBelow? (settings : Settings) (path : String) (found : Place × Entry) : Option Source :=
  match (found.1.getLast?.bind Files.extension?).any settings.accepts, found.2 with
  | true, .file bytes => some (Source.ofBytes (Files.joinPath path found.1) bytes)
  | _, _ => none

def unitsAt (settings : Settings) (files : Files) (path : String) : List Source :=
  match files.placeOf? path with
  | none => []
  | some place =>
    match files.entryAt? place with
    | some (.file bytes) => [Source.ofBytes path bytes]
    | some .folder => (files.filesBelow place).filterMap (unitBelow? settings path)
    | _ => []

/-- The same session but for what it has read. -/
def WithUnits (s : Session) (units : List Source) (s' : Session) : Prop :=
  ∃ unreadable, s' = { s with units := units, unreadable := unreadable }

theorem withUnits_readBelow (s : Session) (path : String) (found : Place × Entry) :
    s.WithUnits (s.units ++ (unitBelow? s.settings path found).toList) (readBelow path s found) := by
  obtain ⟨place, entry⟩ := found
  unfold readBelow unitBelow?
  cases (place.getLast?.bind Files.extension?).any s.settings.accepts with
  | false => exact ⟨s.unreadable, by simp⟩
  | true =>
    cases entry with
    | file bytes => exact ⟨s.unreadable, by simp [readUnit]⟩
    | locked | folder => exact ⟨s.unreadable + 1, by simp⟩

theorem withUnits_foldl (path : String) (s : Session) (found : List (Place × Entry)) :
    s.WithUnits (s.units ++ found.filterMap (unitBelow? s.settings path))
      (found.foldl (readBelow path) s) := by
  induction found generalizing s with
  | nil => exact ⟨s.unreadable, by simp⟩
  | cons first rest ih =>
    obtain ⟨more, hfirst⟩ := withUnits_readBelow s path first
    obtain ⟨unreadable, hrest⟩ := ih (readBelow path s first)
    refine ⟨unreadable, ?_⟩
    rw [List.foldl_cons, hrest, hfirst]
    cases hunit : unitBelow? s.settings path first <;> simp [hunit]

theorem withUnits_readPath (h : s.readPath files path = .ok s') :
    s.WithUnits (s.units ++ unitsAt s.settings files path) s' := by
  unfold readPath at h
  split at h
  · cases h
  · rename_i place hplace
    split at h
    · rename_i bytes hentry
      obtain rfl := Except.ok.inj h
      exact ⟨s.unreadable, by simp [unitsAt, hplace, hentry, readUnit]⟩
    · rename_i hentry
      obtain rfl := Except.ok.inj h
      simp only [unitsAt, hplace, hentry]
      exact withUnits_foldl path s _
    · cases h

/-- A unit that a path leads to: the file there, or one below the folder there whose extension is
accepted. -/
inductive Reads (settings : Settings) (files : Files) (path : String) : Source → Prop
  | file {bytes : List UInt8} (h : files.at? path = some (.file bytes)) :
    Reads settings files path (Source.ofBytes path bytes)
  | below {place inner : Place} {bytes : List UInt8} (hplace : files.placeOf? path = some place)
    (hfolder : files.entryAt? place = some .folder) (hinner : inner ≠ [])
    (hfile : (place ++ inner, .file bytes) ∈ files.entries)
    (haccepts : (inner.getLast?.bind Files.extension?).any settings.accepts = true) :
    Reads settings files path (Source.ofBytes (Files.joinPath path inner) bytes)

theorem readRules_eq {origin : String} {text : List Char} (h : s.readRules origin text = .ok s') :
    ∃ book, RuleFile.rulebook? text = some book ∧ s' = s.useRules book := by
  unfold readRules at h
  split at h
  · rename_i book hbook
    exact ⟨book, hbook, (Except.ok.inj h).symm⟩
  · cases h

theorem readRuleFile_eq (h : s.readRuleFile files path = .ok s') :
    ∃ text book, (files.read? path).bind Utf8.decode? = some text ∧
      RuleFile.rulebook? text = some book ∧ s' = s.useRules book := by
  unfold readRuleFile at h
  split at h
  · rename_i text htext
    obtain ⟨book, hbook, hs⟩ := readRules_eq h
    exact ⟨text, book, htext, hbook, hs⟩
  · cases h

theorem readConfiguredRules_eq (h : s.readConfiguredRules files = .ok s') :
    s.settings.rulesPath = none ∧ s' = s ∨
      ∃ path text book, s.settings.rulesPath = some path ∧
        (files.read? path).bind Utf8.decode? = some text ∧
        RuleFile.rulebook? text = some book ∧ s' = s.useRules book := by
  unfold readConfiguredRules at h
  split at h
  · rename_i path hpath
    obtain ⟨text, book, hread⟩ := readRuleFile_eq h
    exact .inr ⟨path, text, book, hpath, hread⟩
  · rename_i hpath
    exact .inl ⟨hpath, (Except.ok.inj h).symm⟩

end Session

end ScopeLint
