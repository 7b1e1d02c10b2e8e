import ScopeLint.Proofs.Code
import ScopeLint.Proofs.Region.Alike

/-!
# What comments say does not matter

Units that differ in nothing but the contents of their comments leave the same code behind. So every
search for structure has one result on them.
-/

namespace ScopeLint

/-- The units differ in bytes of comments alone, and where comments, literals and macros stand does
not depend on these bytes. -/
structure SameOutsideComments (a b : Source) : Prop where
  name : a.name = b.name
  sizes : a.lines.map Line.size = b.lines.map Line.size
  comments : (Inert.ofSource a).comments.toList.map Comment.span =
    (Inert.ofSource b).comments.toList.map Comment.span
  literals : (Inert.ofSource a).literals = (Inert.ofSource b).literals
  macroRuns : (Code.ofSource a).macroRuns = (Code.ofSource b).macroRuns
  byteAt? : ∀ p, (∀ c ∈ (Inert.ofSource a).comments.toList, p ∉ c.span) →
    a.byteAt? p = b.byteAt? p

namespace SameOutsideComments

variable {a b : Source}

/-! ## Covered positions -/

theorem inComment (h : SameOutsideComments a b) (p : Position) :
    (Inert.ofSource a).inComment p = (Inert.ofSource b).inComment p :=
  congrFun (Inert.inComment_congr h.comments) p

theorem covers (h : SameOutsideComments a b) :
    (Inert.ofSource a).covers = (Inert.ofSource b).covers :=
  Inert.covers_congr h.comments h.literals

theorem byteAt?_of_not_inComment (h : SameOutsideComments a b) {p : Position}
    (hp : (Inert.ofSource a).inComment p = false) : a.byteAt? p = b.byteAt? p := by
  apply h.byteAt?
  intro c hc hin
  rw [Inert.inComment_iff.mpr ⟨c, hc, hin⟩] at hp
  simp at hp

/-! ## Bytes -/

theorem bytes (h : SameOutsideComments a b) :
    (Code.ofSource a).bytes = (Code.ofSource b).bytes :=
  Code.bytes_congr h.covers fun _ hfree =>
    h.byteAt?_of_not_inComment (Bool.or_eq_false_iff.mp hfree).1

/-! ## Blanked lines -/

theorem blankBytes (h : SameOutsideComments a b) {index : Nat} {x y : Line}
    (hx : a.lines[index]? = some x) (hy : b.lines[index]? = some y) :
    (Inert.ofSource a).blankBytes index 0 (Utf8.encode x) =
      (Inert.ofSource b).blankBytes index 0 (Utf8.encode y) := by
  apply List.ext_getElem?
  intro col
  rw [Inert.getElem?_blankBytes, Inert.getElem?_blankBytes, Nat.zero_add, h.inComment]
  cases hinside : (Inert.ofSource b).inComment ⟨index, col⟩ with
  | true =>
    -- Both bytes become spaces, and there are as many of them.
    have hlength : (Utf8.encode x).length = (Utf8.encode y).length := by
      have hsize := Source.size_line_eq h.sizes index
      rw [Source.line_eq hx, Source.line_eq hy] at hsize
      rw [Line.length_encode, Line.length_encode, hsize]
    by_cases hcol : col < (Utf8.encode x).length
    · rw [List.getElem?_eq_getElem hcol, List.getElem?_eq_getElem (hlength ▸ hcol)]
      rfl
    · rw [List.getElem?_eq_none (by omega), List.getElem?_eq_none (by omega)]
  | false =>
    rw [← Source.byteAt?_eq hx, ← Source.byteAt?_eq hy, h.byteAt?_of_not_inComment]
    rw [h.inComment, hinside]

theorem lines (h : SameOutsideComments a b) :
    (Code.ofSource a).lines = (Code.ofSource b).lines := by
  have hlength := Source.length_lines_eq h.sizes
  apply List.ext_getElem?
  intro index
  unfold Code.ofSource
  simp only [Inert.getElem?_blankLines, Nat.zero_add]
  by_cases hindex : index < a.lines.length
  · have hx := List.getElem?_eq_getElem hindex
    have hy := List.getElem?_eq_getElem (hlength ▸ hindex)
    rw [hx, hy, Option.map_some, Option.map_some, h.blankBytes hx hy]
  · rw [List.getElem?_eq_none (by omega), List.getElem?_eq_none (by omega)]
    rfl

/-! ## Searches -/

theorem alike (h : SameOutsideComments a b) : (Code.ofSource a).Alike (Code.ofSource b) where
  lines := h.lines
  bytes := h.bytes
  covers := h.covers
  inMacro := by
    funext line
    unfold Code.inMacro
    rw [h.macroRuns]

end SameOutsideComments

/-- Every search for structure has the same regions or the same fault on units that differ in the
contents of comments alone. -/
theorem searches_of_sameOutsideComments {a b : Source} (h : SameOutsideComments a b) :
    ∀ search ∈ Region.searches,
      (search (Code.ofSource a)).mapError (Fault.unbalanced a.name) =
        (search (Code.ofSource b)).mapError (Fault.unbalanced b.name) := by
  intro search hsearch
  rw [h.alike.search hsearch, h.name]

def commentedClass (first second : String) : Source :=
  ⟨"unit.cpp", [("class A \x7b // " ++ first).toList, ("int n; /* " ++ second ++ " */").toList,
    "\x7d;".toList]⟩

theorem searches_commentedClass :
    SameOutsideComments (commentedClass "\x7b do" "\x7d é") (commentedClass "if (" "ab *") ∧
      ∀ search ∈ Region.searches,
        (search (Code.ofSource (commentedClass "\x7b do" "\x7d é"))).mapError
            (Fault.unbalanced "unit.cpp") =
          (search (Code.ofSource (commentedClass "if (" "ab *"))).mapError
            (Fault.unbalanced "unit.cpp") := by
  have hsizes : (commentedClass "\x7b do" "\x7d é").lines.map Line.size =
      (commentedClass "if (" "ab *").lines.map Line.size := by decide +kernel
  have h : SameOutsideComments (commentedClass "\x7b do" "\x7d é") (commentedClass "if (" "ab *") :=
    { name := rfl
      sizes := hsizes
      comments := by decide +kernel
      literals := by decide +kernel
      macroRuns := by decide +kernel
      byteAt? := Source.byteAt?_eq_of_forall_lt hsizes (by decide +kernel) }
  exact ⟨h, searches_of_sameOutsideComments h⟩

end ScopeLint
