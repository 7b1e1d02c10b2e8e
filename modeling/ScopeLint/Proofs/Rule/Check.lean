import ScopeLint.Proofs.Rule.Place
import ScopeLint.Rule.Check

/-!
# What rules find

Every applicable scope is looked at once. An unknown rule finds its own name, once in each unit. Any
other rule warns at places of the unit: one lemma for each check, put together for the rules.
-/

namespace ScopeLint

namespace Outline

variable {s : Source} {o : Outline} {kinds : KindSet}

/-! ## Applicable scopes -/

theorem mem_scopesOf_iff (h : Outline.ofSource s = .ok o) {id : ScopeId} :
    id ∈ o.scopesOf kinds ↔ id < o.scopes.size ∧ (o.get id).kind.isOf kinds = true := by
  have hnested := wellNested_ofSource h
  have hsize := hnested.size_eq
  rw [scopesOf, List.mem_filter, preorder, List.mem_cons, hnested.mem_descendants]
  refine and_congr_left fun _ => ⟨?_, fun hid => ?_⟩
  · rintro (rfl | ⟨-, hid⟩)
    · show 0 < o.scopes.size
      omega
    · exact hid
  · exact or_iff_not_imp_left.mpr fun hroot => ⟨hroot, hid⟩

theorem nodup_scopesOf (h : Outline.ofSource s = .ok o) : (o.scopesOf kinds).Nodup := by
  have hnested := wellNested_ofSource h
  refine List.Nodup.filter _ (List.nodup_cons.mpr ⟨fun hroot => ?_, hnested.nodup_descendants⟩)
  exact ((hnested.mem_descendants root).mp hroot).1 rfl

/-- Whatever the kinds, each scope of one of them is listed once and no other is. -/
def ListsOnce (o : Outline) : Prop :=
  ∀ kinds, (o.scopesOf kinds).Nodup ∧
    ∀ id, id ∈ o.scopesOf kinds ↔ id < o.scopes.size ∧ (o.get id).kind.isOf kinds = true

theorem listsOnce_ofSource (h : Outline.ofSource s = .ok o) : o.ListsOnce :=
  fun _ => ⟨nodup_scopesOf h, fun _ => mem_scopesOf_iff h⟩

end Outline

namespace Finding

def unknownRule (name : String) : Finding := ⟨.error, "Unknown rule `" ++ name ++ "`", 0, none⟩

def WarnsIn (f : Finding) (s : Source) : Prop :=
  ∃ p content, s.HasPlace p ∧ f = warningAt p.line p.col content

theorem WarnsIn.ne_unknownRule {f : Finding} {s : Source} (h : f.WarnsIn s) (name : String) :
    f ≠ unknownRule name := by
  obtain ⟨p, content, -, rfl⟩ := h
  simp [warningAt, unknownRule]

end Finding

namespace Rule

variable {o : Outline} {ids : List ScopeId} {f : Finding}

/-! ## Scopes -/

theorem warnsIn_of_mem_checkNames (h : o.Placed) {isValid : List Char → Bool}
    {describe : String → String} (hf : f ∈ checkNames o ids isValid describe) :
    f.WarnsIn o.source := by
  obtain ⟨id, -, hid⟩ := List.mem_filterMap.mp hf
  simp only at hid
  split at hid
  · cases hid
  · obtain rfl := Option.some.inj hid
    exact ⟨_, _, h id, rfl⟩

theorem warnsIn_of_mem_checkNoDefine (h : o.Placed) (hf : f ∈ checkNoDefine o ids) :
    f.WarnsIn o.source := by
  obtain ⟨id, -, rfl⟩ := List.mem_map.mp hf
  exact ⟨_, _, h id, rfl⟩

theorem warnsIn_of_mem_checkNoMacroFunctions (h : o.Placed)
    (hf : f ∈ checkNoMacroFunctions o ids) : f.WarnsIn o.source := by
  obtain ⟨id, -, hid⟩ := List.mem_filterMap.mp hf
  obtain ⟨⟨found, name⟩, -, hid⟩ := Option.bind_eq_some_iff.mp hid
  obtain ⟨parameters, -, rfl⟩ := Option.map_eq_some_iff.mp hid
  exact ⟨_, _, h id, rfl⟩

theorem warnsIn_of_mem_checkBraced (h : o.Placed) (hf : f ∈ checkBraced o ids) :
    f.WarnsIn o.source := by
  obtain ⟨id, -, hid⟩ := List.mem_filterMap.mp hf
  simp only at hid
  split at hid
  · cases hid
  · obtain rfl := Option.some.inj hid
    exact ⟨_, _, h id, rfl⟩

/-! ## Words -/

theorem warnsIn_of_mem_checkNoAuto (hf : f ∈ checkNoAuto o ids) : f.WarnsIn o.source := by
  obtain ⟨id, -, hid⟩ := List.mem_filterMap.mp hf
  obtain ⟨p, hp, rfl⟩ := Option.map_eq_some_iff.mp hid
  exact ⟨p, _, Outline.hasPlace_of_mem_wordsWithin (List.mem_of_head? hp), rfl⟩

theorem warnsIn_of_mem_checkNoWord {word : String} (hf : f ∈ checkNoWord o ids word) :
    f.WarnsIn o.source := by
  obtain ⟨p, hp, rfl⟩ := List.mem_map.mp hf
  obtain ⟨entry, hentry, hp⟩ := List.mem_flatMap.mp (List.mem_of_mem_filter hp)
  exact ⟨p, _, Outline.hasPlace_of_mem_wordsOn hentry hp, rfl⟩

theorem warnsIn_of_mem_checkSingleReturn (hf : f ∈ checkSingleReturn o ids) :
    f.WarnsIn o.source := by
  obtain ⟨id, -, hid⟩ := List.mem_flatMap.mp hf
  obtain ⟨p, hp, rfl⟩ := List.mem_map.mp hid
  exact ⟨p, _, Outline.hasPlace_of_mem_wordsWithin (List.mem_of_mem_drop hp), rfl⟩

/-! ## Braces -/

theorem warnsIn_of_mem_checkOpening {style : BraceStyle} (hf : f ∈ checkOpening o ids style) :
    f.WarnsIn o.source := by
  obtain ⟨id, -, hid⟩ := List.mem_filterMap.mp hf
  obtain ⟨p, hp, hid⟩ := Option.bind_eq_some_iff.mp hid
  split at hid
  · cases hid
  · obtain rfl := Option.some.inj hid
    exact ⟨p, _, Outline.hasPlace_of_firstWithin? hp, rfl⟩

theorem warnsIn_of_mem_checkClosing {style : BraceStyle} (hf : f ∈ checkClosing o ids style) :
    f.WarnsIn o.source := by
  obtain ⟨id, -, hid⟩ := List.mem_filterMap.mp hf
  simp only at hid
  split at hid
  · cases hid
  · rename_i hbrace
    split at hid
    · cases hid
    · obtain rfl := Option.some.inj hid
      have hbyte := Classical.not_not.mp (not_or.mp hbrace).2
      exact ⟨_, _, Source.hasPlace_of_byteAt? hbyte, rfl⟩

/-! ## Lines -/

theorem warnsIn_of_mem_checkLineLength {limit : Nat} (hf : f ∈ checkLineLength o ids limit) :
    f.WarnsIn o.source := by
  obtain ⟨index, hindex, hf⟩ := List.mem_filterMap.mp hf
  simp only at hf
  split at hf
  · rename_i hlong
    obtain rfl := Option.some.inj hf
    have hsize := (o.source.line index).length_le_size
    have hplace := Source.hasPlace_of_line (Outline.getElem?_of_mem_coveredLines hindex)
      (Nat.le_trans (Nat.le_of_lt hlong) hsize)
    exact ⟨_, _, hplace, rfl⟩
  · cases hf

theorem warnsIn_of_mem_checkTabs (hf : f ∈ checkTabs o ids) : f.WarnsIn o.source := by
  obtain ⟨index, hindex, hf⟩ := List.mem_filterMap.mp hf
  simp only at hf
  split at hf
  · cases hf
  · obtain ⟨col, hcol, rfl⟩ := Option.map_eq_some_iff.mp hf
    -- The indent ends where the code of the line starts.
    have hindent := (o.source.line index).firstCodeCol_le
    have hlt := Line.lt_of_mem_colsFrom (List.mem_of_head? hcol)
    rw [Nat.zero_add, ← Line.firstCodeCol] at hlt
    have hplace := Source.hasPlace_of_line (Outline.getElem?_of_mem_coveredLines hindex)
      (Nat.le_of_lt (Nat.lt_of_lt_of_le hlt hindent))
    exact ⟨_, _, hplace, rfl⟩

/-! ## Rules -/

theorem check_of_unknown {r : Rule} (hr : r.kind = .unknown) :
    r.check o = [.unknownRule r.name] := by
  unfold check
  rw [hr]
  rfl

theorem warnsIn_of_mem_check (h : o.Placed) {r : Rule} (hr : r.kind ≠ .unknown)
    (hf : f ∈ r.check o) : f.WarnsIn o.source := by
  unfold check at hf
  cases hkind : r.kind <;> simp only [hkind] at hf
  case unknown => exact absurd hkind hr
  case noAuto => exact warnsIn_of_mem_checkNoAuto hf
  case noDefine => exact warnsIn_of_mem_checkNoDefine h hf
  case noMacroFunctions => exact warnsIn_of_mem_checkNoMacroFunctions h hf
  case startWithX | endWithX =>
    cases hparameter : r.parameter with
    | none => simp [hparameter] at hf
    | some text =>
      simp only [hparameter] at hf
      exact warnsIn_of_mem_checkNames h hf
  case maxCharactersPerLine => exact warnsIn_of_mem_checkLineLength hf
  case curlyBracketsOpenSameLine | curlyBracketsOpenSeparateLine =>
    exact warnsIn_of_mem_checkOpening hf
  case curlyBracketsCloseSameLine | curlyBracketsCloseSeparateLine =>
    exact warnsIn_of_mem_checkClosing hf
  case alwaysHaveCurlyBrackets => exact warnsIn_of_mem_checkBraced h hf
  case noConstCast | noGoto => exact warnsIn_of_mem_checkNoWord hf
  case startWithLowerCase | startWithUpperCase | nameMaxCharacter =>
    exact warnsIn_of_mem_checkNames h hf
  case singleReturn => exact warnsIn_of_mem_checkSingleReturn hf
  case tabIndentation => exact warnsIn_of_mem_checkTabs hf

end Rule

end ScopeLint
