import ScopeLint.Proofs.Outline.Inert
import ScopeLint.Proofs.Region.Clear

/-!
# Texts of scopes

The texts of scopes are nested as the scopes are, and none of them has a byte that its scope has
not: every scope starts and ends between characters, however many bytes these have.
-/

namespace ScopeLint.Outline

/-- The text of a scope is that of its span, byte by byte, and a part of its parent's. -/
structure TextsNest (s : Source) (o : Outline) : Prop where
  text_infix : ∀ id parent, (o.get id).parent = some parent →
    o.scopeText id <:+: o.scopeText parent
  text_root : o.scopeText root = List.intercalate ['\n'] s.lines
  bytes_eq : ∀ id < o.scopes.size,
    (o.scopeLines id).map Utf8.encode = s.bytesIn (o.get id).span
  first_byte : ∀ id < o.scopes.size, ∀ b, s.byteAt? (o.get id).span.start = some b →
    (Utf8.encode (o.scopeText id)).head? = some b
  last_byte : ∀ id < o.scopes.size, ∀ b, s.byteAt? (o.get id).span.stop = some b →
    (Utf8.encode (o.scopeText id)).getLast? = some b

variable {s : Source} {o : Outline} {id : ScopeId}

theorem span_eq_or_exists_region (h : Outline.ofSource s = .ok o) (hid : id < o.scopes.size) :
    (o.get id).span = ⟨⟨0, 0⟩, s.lastPosition⟩ ∨
      ∃ regions, Region.ofCode (Code.ofSource s) = .ok regions ∧
        ∃ r ∈ regions, (o.get id).span = r.span := by
  by_cases hroot : id = root
  · left
    rw [hroot, (wellNested_ofSource h).span_root]
  · obtain ⟨regions, hregions, r, hr, container, hregion⟩ := exists_region_ofSource h hid hroot
    exact .inr ⟨regions, hregions, r, hr, congrArg Region.span hregion⟩

theorem clearIn_ofSource (h : Outline.ofSource s = .ok o) (hid : id < o.scopes.size) :
    (o.get id).span.ClearIn s := by
  rcases span_eq_or_exists_region h hid with hspan | ⟨regions, hregions, r, hr, hspan⟩
  · rw [hspan]
    constructor
    · exact fun line _ => line.clear_zero
    · intro line hline
      show line.Clear ((s.line s.lastPosition.line).lastCol + 1)
      rw [Source.line_eq hline]
      exact line.clear_lastCol
  · rw [hspan]
    exact Region.clearIn_of_mem_ofCode hregions r hr

theorem fitsIn_ofSource (h : Outline.ofSource s = .ok o) (hid : id < o.scopes.size) :
    (o.get id).span.FitsIn s := by
  rcases span_eq_or_exists_region h hid with hspan | ⟨regions, hregions, r, hr, hspan⟩
  · rw [hspan]
    exact ⟨Position.origin_le _, Position.le_refl _, Nat.le_refl _⟩
  · rw [hspan]
    exact Region.fitsIn_of_mem_ofCode hregions r hr

/-- Where the columns of a unit are numbers of 64 bits, the lines of a scope are the slice between
its ends. -/
theorem scopeLines_eq_slice (h : Outline.ofSource s = .ok o) (hid : id < o.scopes.size)
    (hsize : ∀ line ∈ s.lines, line.size < UInt64.size) :
    o.scopeLines id = s.slice (o.get id).span.start (o.get id).span.stop := by
  rw [scopeLines, source_ofSource h]
  have hbits : 1 < UInt64.size := by decide
  have hcol := (fitsIn_ofSource h hid).stop_col_le
  rw [Line.lastCol] at hcol
  refine Source.linesOf_eq_slice ?_
  cases hline : s.lines[(o.get id).span.stop.line]? with
  | none =>
    have hempty : s.line (o.get id).span.stop.line = [] := by
      rw [Source.line, hline, Option.getD_none]
    rw [hempty, Line.size] at hcol
    omega
  | some line =>
    rw [Source.line_eq hline] at hcol
    have hline := hsize line (List.mem_of_getElem? hline)
    omega

/-- Where there is an outline, the texts of its scopes nest, and no slice is widened. -/
theorem textsNest_ofSource (h : Outline.ofSource s = .ok o) : o.TextsNest s := by
  have hnested := wellNested_ofSource h
  have hsource := source_ofSource h
  constructor
  case text_infix =>
    intro id parent hparent
    exact Source.textOf_infix (hnested.span_within id parent hparent)
  case text_root =>
    rw [scopeText, Source.textOf, hnested.span_root, hsource, s.linesOf_all]
  case bytes_eq =>
    intro id hid
    rw [scopeLines, hsource]
    exact Source.map_encode_linesOf (hnested.start_le_stop id hid) (clearIn_ofSource h hid)
  case first_byte =>
    intro id hid b hb
    rw [scopeText, hsource]
    exact Source.head?_encode_textOf (hnested.start_le_stop id hid) (clearIn_ofSource h hid) hb
  case last_byte =>
    intro id hid b hb
    rw [scopeText, hsource]
    exact Source.getLast?_encode_textOf (hnested.start_le_stop id hid) (clearIn_ofSource h hid) hb

/-- A class with characters of more than one byte at the ends of its lines, and a macro that ends
with an empty line. -/
def wideClass : Source :=
  ⟨"unit.cpp", ["class Größe \x7b // é".toList, "  int größe = 'ü'; // 漢".toList,
    "  int k = 1; /* ö".toList, "é */ \x7d 漢;".toList, "#define É \\".toList, "".toList]⟩

theorem textsNest_wideClass : ∃ o, Outline.ofSource wideClass = .ok o ∧ o.scopes.size = 8 ∧
    o.TextsNest wideClass := by
  obtain ⟨o, ho, hsize⟩ := exists_ofSource (s := wideClass) (P := fun o => o.scopes.size = 8)
    (by decide +kernel)
  exact ⟨o, ho, hsize, textsNest_ofSource ho⟩

end ScopeLint.Outline
