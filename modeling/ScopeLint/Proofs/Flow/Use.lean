import ScopeLint.Proofs.Flow.Track
import ScopeLint.Proofs.Rule.Place

/-!
# First uses of bad values

Both flow checks give the first line that reads a variable while it holds a bad value, if that line
stands in front of the last one of the function or conditional around the variable. The last line
itself is not looked at.
-/

namespace ScopeLint.Flow

variable {s : Source} {o : Outline} {id : ScopeId} {parent : Scope} {name value : Line}
  {isBad : Line → Bool} {declared line : Nat}

/-! ## Checks -/

/-- The scope is directly around the variable, and a function or a conditional. -/
structure TrackedIn (o : Outline) (id : ScopeId) (parent : Scope) : Prop where
  exists_parent : ∃ p, (o.get id).parent = some p ∧ o.get p = parent
  kind : parent.kind.isOf (.functions ∪ .conditionals) = true

theorem trackedParent?_eq_some_iff : trackedParent? o id = some parent ↔ TrackedIn o id parent := by
  simp only [trackedParent?, Option.bind_eq_some_iff, Option.ite_none_right_eq_some,
    Option.some.injEq]
  constructor
  · rintro ⟨p, hp, hkind, rfl⟩
    exact ⟨⟨p, hp, rfl⟩, hkind⟩
  · rintro ⟨⟨p, hp, rfl⟩, hkind⟩
    exact ⟨p, hp, hkind, rfl⟩

theorem TrackedIn.unique {other : Scope} (h : TrackedIn o id parent) (h' : TrackedIn o id other) :
    parent = other :=
  Option.some.inj
    ((trackedParent?_eq_some_iff.mpr h).symm.trans (trackedParent?_eq_some_iff.mpr h'))

def PointerDeclared (o : Outline) (id : ScopeId) (value : Line) : Prop :=
  let line := o.source.line (o.get id).span.start.line
  ∃ found, (pointerDeclaration (o.get id).name.toList).find line = some found ∧
    value = (assigned? line (found.stop - 1) true).getD []

theorem PointerDeclared.unique {other : Line} (h : PointerDeclared o id value)
    (h' : PointerDeclared o id other) : value = other := by
  obtain ⟨found, hfound, rfl⟩ := h
  obtain ⟨found', hfound', rfl⟩ := h'
  rw [Option.some.inj (hfound.symm.trans hfound')]

/-- The value that the first mention of the variable on the line of its declaration assigns, if there
is one and it assigns any. -/
inductive StartsWith (o : Outline) (name : Line) (declared : Nat) : Line → Prop where
  | assigned {f : Pattern.Found} {value : Line} (hf : FirstMention o name declared f)
    (hvalue : assigned? (o.source.line declared) (f.stop - 1) true = some value) :
    StartsWith o name declared value
  | nothing (hnone : ∀ f, FirstMention o name declared f →
    assigned? (o.source.line declared) (f.stop - 1) true = none) : StartsWith o name declared []

theorem startsWith_iff : StartsWith o name declared value ↔
    value = ((mentionEnd? o.inert name declared (o.source.line declared)).bind fun stop =>
      assigned? (o.source.line declared) (stop - 1) true).getD [] := by
  cases hmention : mentionEnd? o.inert name declared (o.source.line declared) with
  | none =>
    rw [mentionEnd?_eq_none_iff] at hmention
    rw [Option.bind_none, Option.getD_none]
    constructor
    · rintro (⟨hf, -⟩ | -)
      · exact absurd hf (hmention _)
      · rfl
    · rintro rfl
      exact .nothing fun f hf => absurd hf (hmention f)
  | some stop =>
    obtain ⟨f, hf, rfl⟩ := mentionEnd?_eq_some_iff.mp hmention
    rw [Option.bind_some]
    constructor
    · rintro (⟨hg, hvalue⟩ | hnone)
      · rw [hf.unique hg, hvalue, Option.getD_some]
      · rw [hnone f hf, Option.getD_none]
    · rintro rfl
      cases hvalue : assigned? (o.source.line declared) (f.stop - 1) true with
      | none => exact .nothing fun g hg => by rw [hg.unique hf, hvalue]
      | some value => exact .assigned hf hvalue

def PrimitiveDeclared (o : Outline) (id : ScopeId) (value : Line) : Prop :=
  let declared := (o.get id).span.start.line
  let name := (o.get id).name.toList
  (∃ found, (primitiveDeclaration name).find (o.source.line declared) = some found) ∧
    StartsWith o name declared value

theorem PrimitiveDeclared.unique {other : Line} (h : PrimitiveDeclared o id value)
    (h' : PrimitiveDeclared o id other) : value = other :=
  (startsWith_iff.mp h.2).trans (startsWith_iff.mp h'.2).symm

/-- The line reads the variable while its value is bad, the declaration having given it `value`. -/
def Misreads (o : Outline) (id : ScopeId) (isBad : Line → Bool) (value : Line) (line : Nat) :
    Prop :=
  ReadsBad o (o.get id).name.toList isBad (o.get id).span.start.line value line

theorem nullUse?_eq_some_iff : nullUse? o id = some line ↔
    ∃ parent value, TrackedIn o id parent ∧ PointerDeclared o id value ∧
      IsLeast {k | Misreads o id isNullValue value k ∧ k < parent.span.stop.line} line := by
  simp only [nullUse?, Option.bind_eq_bind, Option.bind_eq_some_iff, firstBadRead_trackedLines,
    trackedParent?_eq_some_iff]
  constructor
  · rintro ⟨found, hfound, parent, hparent, hleast⟩
    exact ⟨parent, _, hparent, ⟨found, hfound, rfl⟩, hleast⟩
  · rintro ⟨parent, _, hparent, ⟨found, hfound, rfl⟩, hleast⟩
    exact ⟨found, hfound, parent, hparent, hleast⟩

theorem uninitializedUse?_eq_some_iff : uninitializedUse? o id = some line ↔
    ∃ parent value, TrackedIn o id parent ∧ PrimitiveDeclared o id value ∧
      IsLeast {k | Misreads o id (· == []) value k ∧ k < parent.span.stop.line} line := by
  simp only [uninitializedUse?, Option.bind_eq_bind, Option.bind_eq_some_iff,
    firstBadRead_trackedLines, trackedParent?_eq_some_iff, PrimitiveDeclared,
    startsWith_iff]
  constructor
  · rintro ⟨found, hfound, parent, hparent, hleast⟩
    exact ⟨parent, _, hparent, ⟨⟨found, hfound⟩, rfl⟩, hleast⟩
  · rintro ⟨parent, _, hparent, ⟨⟨found, hfound⟩, rfl⟩, hleast⟩
    exact ⟨found, hfound, parent, hparent, hleast⟩

theorem nullUse?_iff_of_declared (hparent : TrackedIn o id parent)
    (hvalue : PointerDeclared o id value) : nullUse? o id = some line ↔
      IsLeast {k | Misreads o id isNullValue value k ∧ k < parent.span.stop.line} line := by
  rw [nullUse?_eq_some_iff]
  constructor
  · rintro ⟨parent', value', hparent', hvalue', hleast⟩
    rwa [hparent.unique hparent', hvalue.unique hvalue']
  · exact fun hleast => ⟨parent, value, hparent, hvalue, hleast⟩

theorem uninitializedUse?_iff_of_declared (hparent : TrackedIn o id parent)
    (hvalue : PrimitiveDeclared o id value) : uninitializedUse? o id = some line ↔
      IsLeast {k | Misreads o id (· == []) value k ∧ k < parent.span.stop.line} line := by
  rw [uninitializedUse?_eq_some_iff]
  constructor
  · rintro ⟨parent', value', hparent', hvalue', hleast⟩
    rwa [hparent.unique hparent', hvalue.unique hvalue']
  · exact fun hleast => ⟨parent, value, hparent, hvalue, hleast⟩

theorem isNullValue_iff :
    isNullValue value = true ↔ trim value ∈ [[], "NULL".toList, "0".toList] := by
  simp [isNullValue, or_assoc]

/-- Either check gives a line exactly if the variable stands directly in a function or a conditional,
the line behind its declaration and in front of the last line of that scope, and it is the first of
these that reads the variable by its first mention while the value is bad: that of the latest line
in between which assigns one by its first mention, or else that of the declaration. A pointer must
hold something else than blanks, `NULL` and `0`, a primitive variable anything. -/
theorem uses_iff_isLeast_misreads (o : Outline) (id : ScopeId) (line : Nat) :
    (∀ value, isNullValue value = true ↔ trim value ∈ [[], "NULL".toList, "0".toList]) ∧
    (nullUse? o id = some line ↔ ∃ parent value, TrackedIn o id parent ∧
      PointerDeclared o id value ∧
      IsLeast {k | Misreads o id isNullValue value k ∧ k < parent.span.stop.line} line) ∧
    (uninitializedUse? o id = some line ↔ ∃ parent value, TrackedIn o id parent ∧
      PrimitiveDeclared o id value ∧
      IsLeast {k | Misreads o id (· == []) value k ∧ k < parent.span.stop.line} line) :=
  ⟨fun _ => isNullValue_iff, nullUse?_eq_some_iff, uninitializedUse?_eq_some_iff⟩

/-! ## The last line -/

def MentionedIn (o : Outline) (id : ScopeId) (span : Span) (line : Nat) : Prop :=
  ∃ f c, FirstMention o (o.get id).name.toList line f ∧ f.part? .name = some c ∧
    (⟨line, c.start⟩ : Position) ∈ span

/-- The lines that read the variable in the scope around it while its value is bad, the last line of
the scope among them. -/
def misreadsIn (o : Outline) (id : ScopeId) (isBad : Line → Bool) (value : Line)
    (parent : Scope) : Set Nat :=
  {k | Misreads o id isBad value k ∧ k ≤ parent.span.stop.line ∧ MentionedIn o id parent.span k}

theorem Misreads.mem_misreadsIn (h : Outline.ofSource s = .ok o) (hparent : TrackedIn o id parent)
    (hread : Misreads o id isBad value line) (hlt : line < parent.span.stop.line) :
    line ∈ misreadsIn o id isBad value parent := by
  obtain ⟨⟨p, hp, rfl⟩, -⟩ := hparent
  have hwithin := ((Outline.wellNested_ofSource h).span_within id p hp).1
  obtain ⟨f, hf, -⟩ := hread.reads
  obtain ⟨c, hc⟩ := hf.exists_name
  have hbehind := hread.behind
  refine ⟨hread, Nat.le_of_lt hlt, f, c, hf, hc, ?_, .inl hlt⟩
  rw [Position.le_def] at hwithin ⊢
  left
  show _ < line
  omega

theorem eq_ite_of_isLeast (h : Outline.ofSource s = .ok o) (hparent : TrackedIn o id parent)
    {use? : Option Nat} (hleast : IsLeast (misreadsIn o id isBad value parent) line)
    (huse : ∀ k, use? = some k ↔
      IsLeast {k | Misreads o id isBad value k ∧ k < parent.span.stop.line} k) :
    use? = if line < parent.span.stop.line then some line else none := by
  obtain ⟨hmem, hlower⟩ := hleast
  have hbefore : ∀ k, Misreads o id isBad value k ∧ k < parent.span.stop.line → line ≤ k :=
    fun k hk => hlower (hk.1.mem_misreadsIn h hparent hk.2)
  split
  · rename_i hlt
    exact (huse line).mpr ⟨⟨hmem.1, hlt⟩, hbefore⟩
  · rename_i hlast
    refine Option.eq_none_iff_forall_ne_some.mpr fun k hk => ?_
    have hleast := (huse k).mp hk
    have := hbefore k hleast.1
    have := hleast.1.2
    omega

/-- For every variable in a function or a conditional whose declaration fits: if some line behind the
declaration, the last of the scope among them, reads the variable in the scope while its value is
bad, the check gives the first such line, unless that is the last line of the scope, where it gives
none. -/
theorem uses_of_isLeast_misreadsIn (h : Outline.ofSource s = .ok o)
    (hparent : TrackedIn o id parent) :
    (∀ value, PointerDeclared o id value →
      ∀ line, IsLeast (misreadsIn o id isNullValue value parent) line →
        nullUse? o id = if line < parent.span.stop.line then some line else none) ∧
    (∀ value, PrimitiveDeclared o id value →
      ∀ line, IsLeast (misreadsIn o id (· == []) value parent) line →
        uninitializedUse? o id = if line < parent.span.stop.line then some line else none) := by
  constructor
  · intro value hvalue line hleast
    exact eq_ite_of_isLeast h hparent hleast fun k => nullUse?_iff_of_declared hparent hvalue
  · intro value hvalue line hleast
    exact eq_ite_of_isLeast h hparent hleast fun k => uninitializedUse?_iff_of_declared hparent
      hvalue

theorem isLeast_misreadsIn_next (hdeclared : (o.get id).span.start.line + 1 = line)
    (hmentioned : MentionedIn o id parent.span line)
    (hreads : Reads o (o.get id).name.toList line) (hbad : isBad value = true)
    (hlast : line ≤ parent.span.stop.line) :
    IsLeast (misreadsIn o id isBad value parent) line := by
  subst hdeclared
  exact ⟨⟨⟨Nat.lt_succ_self _, hreads, value, holds_first, hbad⟩, hlast, hmentioned⟩,
    fun _ hk => hk.1.behind⟩

def usedBeforeEnd : Source :=
  ⟨"unit.cpp",
    ["void f() \x7b".toList, "  int *p = NULL;".toList, "  use( p );".toList, "\x7d".toList]⟩

def usedOnLastLine : Source :=
  ⟨"unit.cpp", ["void f() \x7b".toList, "  int *p = NULL;".toList, "  use( p ); \x7d".toList]⟩

/-- Variable 2 is a pointer of scope 1 that is set to `NULL` on line 1 and read on line 2. -/
def ReadsNull (o : Outline) : Prop :=
  trackedParent? o 2 = some (o.get 1) ∧ (o.get 2).name = "p" ∧ (o.get 2).span.start.line = 1 ∧
    o.source.line 1 = "  int *p = NULL;".toList ∧
    ((mention "p".toList).findAll (o.source.line 2)).find? (IsOutside o 2) =
      some ⟨6, 9, [(.opens .name, 7), (.closes .name, 8)]⟩ ∧
    assigned? (o.source.line 2) 8 false = none ∧ (⟨2, 7⟩ : Position) ∈ (o.get 1).span

instance (o : Outline) : Decidable (ReadsNull o) := inferInstanceAs (Decidable (_ ∧ _))

theorem ReadsNull.isLeast (h : ReadsNull o) : TrackedIn o 2 (o.get 1) ∧
    PointerDeclared o 2 " NULL".toList ∧
    IsLeast (misreadsIn o 2 isNullValue " NULL".toList (o.get 1)) 2 := by
  obtain ⟨hparent, hname, hdeclared, hline, hfind, hreads, hwithin⟩ := h
  have hmention := find?_isOutside.mp hfind
  refine ⟨trackedParent?_eq_some_iff.mp hparent, ?_, isLeast_misreadsIn_next ?_ ?_ ?_ ?_ ?_⟩
  · rw [PointerDeclared, hdeclared, hline, hname]
    exact ⟨⟨5, 9, []⟩, by decide, by decide⟩
  · rw [hdeclared]
  · rw [← hname] at hmention
    exact ⟨_, ⟨7, 8⟩, hmention, rfl, hwithin⟩
  · rw [hname]
    exact ⟨_, hmention, hreads⟩
  · decide
  · exact hwithin.2.elim Nat.le_of_lt fun h => Nat.le_of_eq h.1

theorem uses_of_isLeast_misreadsIn_usedBeforeEnd : ∃ o, Outline.ofSource usedBeforeEnd = .ok o ∧
    TrackedIn o 2 (o.get 1) ∧ PointerDeclared o 2 " NULL".toList ∧
    IsLeast (misreadsIn o 2 isNullValue " NULL".toList (o.get 1)) 2 ∧ nullUse? o 2 = some 2 := by
  obtain ⟨o, h, hlast, hnull⟩ : ∃ o, Outline.ofSource usedBeforeEnd = .ok o ∧
      2 < (o.get 1).span.stop.line ∧ ReadsNull o := Outline.exists_ofSource (by decide +kernel)
  obtain ⟨hparent, hvalue, hleast⟩ := hnull.isLeast
  have huse := (uses_of_isLeast_misreadsIn h hparent).1 _ hvalue 2 hleast
  exact ⟨o, h, hparent, hvalue, hleast, huse.trans (if_pos hlast)⟩

/-- The same use on the last line of the function is not found. -/
theorem nullUse?_usedOnLastLine : ∃ o, Outline.ofSource usedOnLastLine = .ok o ∧
    TrackedIn o 2 (o.get 1) ∧ PointerDeclared o 2 " NULL".toList ∧
    IsLeast (misreadsIn o 2 isNullValue " NULL".toList (o.get 1)) 2 ∧ nullUse? o 2 = none := by
  obtain ⟨o, h, huse, hnull⟩ : ∃ o, Outline.ofSource usedOnLastLine = .ok o ∧
      nullUse? o 2 = none ∧ ReadsNull o := Outline.exists_ofSource (by decide +kernel)
  obtain ⟨hparent, hvalue, hleast⟩ := hnull.isLeast
  exact ⟨o, h, hparent, hvalue, hleast, huse⟩

end ScopeLint.Flow
