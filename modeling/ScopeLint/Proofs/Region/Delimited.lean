import ScopeLint.Proofs.Extent.Marks
import ScopeLint.Proofs.Pattern.Heads
import ScopeLint.Proofs.Pattern.Quotes
import ScopeLint.Proofs.Region.Start

/-!
# Regions from byte to byte

A region of structure starts and ends at a byte outside comments and literals: it starts on a line
outside macro definitions, one region for each line, and ends at a brace or a semicolon.
-/

namespace ScopeLint

theorem Source.exists_byteAt?_of_lt {s : Source} {index col : Nat} {line : Line}
    (h : (Code.ofSource s).lines[index]? = some line) (hcol : col < line.size) :
    ∃ b, s.byteAt? ⟨index, col⟩ = some b := by
  have hindex := (List.getElem?_eq_some_iff.mp h).1
  rw [Code.length_lines] at hindex
  have horiginal := List.getElem?_eq_getElem hindex
  have hsize := Inert.size_blankLine h
  rw [Source.line_eq horiginal, ← Line.length_encode s.lines[index]] at hsize
  rw [Source.byteAt?_eq horiginal, List.getElem?_eq_getElem (hsize ▸ hcol)]
  exact ⟨_, rfl⟩

namespace Region

/-! ## One region for each line -/

structure FoundBy (code : Code) (search : Nat → Line → Except Unbalanced (Option Region))
    (found : List Region) : Prop where
  of_mem : ∀ r ∈ found, ∃ line, code.lines[r.span.start.line]? = some line ∧
    code.inMacro r.span.start.line = false ∧ search r.span.start.line line = .ok (some r)
  sorted : found.Pairwise fun a b => a.span.start.line < b.span.start.line

theorem inMacro_of_outsideMacros {code : Code}
    {search : Nat → Line → Except Unbalanced (Option Region)} {index : Nat} {line : Line} {r : Region}
    (h : outsideMacros code search index line = .ok (some r)) : code.inMacro index = false := by
  unfold outsideMacros at h
  split at h
  · simp at h
  · rename_i hout
    exact Bool.eq_false_iff.mpr hout

section

variable {code : Code} {search : Nat → Line → Except Unbalanced (Option Region)}
  {found : List Region}

theorem pairwise_sweep (hstart : ∀ {i line r}, search i line = .ok (some r) → r.span.start.line = i)
    {index : Nat} {lines : List Line} (h : sweep search index lines = .ok found) :
    found.Pairwise fun a b => a.span.start.line < b.span.start.line := by
  induction lines generalizing index found with
  | nil =>
    obtain rfl := Except.ok.inj h
    exact .nil
  | cons line rest ih =>
    rw [sweep] at h
    split at h
    · simp at h
    · exact ih h
    · rename_i r hr
      obtain ⟨more, hmore, rfl⟩ := exists_of_map_eq_ok h
      refine List.pairwise_cons.mpr ⟨fun r' hr' => ?_, ih hmore⟩
      obtain ⟨i, line', -, hline⟩ := exists_of_mem_sweep hmore hr'
      rw [hstart hr, hstart hline]
      omega

theorem foundBy_sweep (hstart : ∀ {i line r}, search i line = .ok (some r) → r.span.start.line = i)
    (h : sweep (outsideMacros code search) 0 code.lines = .ok found) :
    FoundBy code search found where
  of_mem r hr := by
    obtain ⟨i, line, hline, hout⟩ := exists_of_mem_sweep h hr
    have hfound := of_outsideMacros hout
    rw [Nat.zero_add] at hfound hout
    rw [hstart hfound]
    exact ⟨line, hline, inMacro_of_outsideMacros hout, hfound⟩
  sorted := pairwise_sweep (fun hr => hstart (of_outsideMacros hr)) h

theorem pairwise_enumsFrom {resume index : Nat} {lines : List Line}
    (h : enumsFrom code resume index lines = .ok found) :
    found.Pairwise fun a b => a.span.start.line < b.span.start.line := by
  induction lines generalizing resume index found with
  | nil =>
    obtain rfl := Except.ok.inj h
    exact .nil
  | cons line rest ih =>
    rw [enumsFrom] at h
    split at h
    · exact ih h
    · split at h
      · simp at h
      · exact ih h
      · rename_i r hr
        obtain ⟨more, hmore, rfl⟩ := exists_of_map_eq_ok h
        refine List.pairwise_cons.mpr ⟨fun r' hr' => ?_, ih hmore⟩
        obtain ⟨i, line', -, hline⟩ := exists_of_mem_enumsFrom hmore hr'
        rw [(startsOn_of_enumOn (of_outsideMacros hr)).1,
          (startsOn_of_enumOn (of_outsideMacros hline)).1]
        omega

theorem foundBy_enums (h : enums code = .ok found) : FoundBy code (enumOn code) found where
  of_mem r hr := by
    obtain ⟨i, line, hline, hout⟩ := exists_of_mem_enumsFrom h hr
    have hfound := of_outsideMacros hout
    rw [Nat.zero_add] at hfound hout
    rw [(startsOn_of_enumOn hfound).1]
    exact ⟨line, hline, inMacro_of_outsideMacros hout, hfound⟩
  sorted := pairwise_enumsFrom h

end

/-! ## Where regions start and end -/

/-- The region goes from a byte of code outside macros to one of the bytes that may end it. -/
structure Delimited (s : Source) (closers : List Char) (r : Region) : Prop where
  start_le_stop : r.span.start ≤ r.span.stop
  start_code : ∃ b, s.HasCode r.span.start b
  stop_code : ∃ c ∈ closers, s.HasCode r.span.stop c.toUInt8
  start_outsideMacros : (Code.ofSource s).inMacro r.span.start.line = false

variable {s : Source} {index : Nat} {line : Line} {r : Region} {p q : Position}

theorem exists_hasCode_of_braces (h : Extent.resolve (Code.ofSource s) q .braces = .ok p) :
    ∃ c ∈ ['\x7d'], s.HasCode p c.toUInt8 := by
  obtain ⟨x, hx, rfl, hend⟩ := Extent.exists_of_resolve h
  have hcode := Source.hasCode_of_mem_bytes (Code.mem_bytesAt.mp hx).1
  rcases hend with hclosing | ⟨hends, -⟩
  · exact ⟨'\x7d', by decide, hclosing ▸ hcode⟩
  · cases hends

theorem exists_hasCode_of_bracesOrStatement
    (h : Extent.resolve (Code.ofSource s) q .bracesOrStatement = .ok p) :
    ∃ c ∈ ['\x7d', ';'], s.HasCode p c.toUInt8 := by
  obtain ⟨x, hx, rfl, hend⟩ := Extent.exists_of_resolve h
  have hcode := Source.hasCode_of_mem_bytes (Code.mem_bytesAt.mp hx).1
  rcases hend with hclosing | ⟨-, hstatement⟩
  · exact ⟨'\x7d', by decide, hclosing ▸ hcode⟩
  · exact ⟨';', by decide, hstatement ▸ hcode⟩

theorem hasCode_of_loopStatement? (h : Extent.loopStatement? (Code.ofSource s) q = some p) :
    s.HasCode p ';'.toUInt8 := by
  obtain ⟨_, _, statement, -, -, -, hnext, hbyte, rfl⟩ := Extent.loopStatement?_eq_some_iff.mp h
  have hcode := Source.hasCode_of_mem_bytes (Code.mem_bytesAt.mp (List.mem_of_find?_eq_some hnext)).1
  exact hbyte ▸ hcode

theorem exists_hasCode_of_conditionalEnd {keyword : Capture}
    (h : conditionalEnd (Code.ofSource s) index line keyword = .ok (some p)) :
    ∃ c ∈ ['\x7d', ';'], s.HasCode p c.toUInt8 := by
  obtain ⟨q, -, hbody | hstatement⟩ := exists_of_conditionalEnd h
  · exact exists_hasCode_of_bracesOrStatement hbody
  · exact ⟨';', by decide, hasCode_of_loopStatement? hstatement⟩

theorem exists_hasCode_of_lt {col : Nat} (hline : (Code.ofSource s).lines[index]? = some line)
    (hfree : (Code.ofSource s).inert.covers ⟨index, col⟩ = false) (hcol : col < line.size) :
    ∃ b, s.HasCode ⟨index, col⟩ b := by
  obtain ⟨b, hb⟩ := Source.exists_byteAt?_of_lt hline hcol
  exact ⟨b, hfree, hb⟩

theorem exists_hasCode_firstCodeCol {col : Nat}
    (hline : (Code.ofSource s).lines[index]? = some line)
    (hfree : (Code.ofSource s).inert.covers ⟨index, line.firstCodeCol⟩ = false)
    (hcode : line.HasCodeAt col) : ∃ b, s.HasCode ⟨index, line.firstCodeCol⟩ b :=
  exists_hasCode_of_lt hline hfree (Nat.lt_of_le_of_lt hcode.firstCodeCol_le hcode.lt_size)

/-! ## The searches -/

section

variable (hline : (Code.ofSource s).lines[index]? = some line)
  (hout : (Code.ofSource s).inMacro index = false)

include hline hout

theorem delimited_of_namespaceOn (h : namespaceOn (Code.ofSource s) index line = .ok (some r)) :
    r.Delimited s ['\x7d'] := by
  have hle := (fitsIn_of_namespaceOn h).1
  obtain ⟨f, stop, hf, hfree, hstop, rfl⟩ := exists_of_namespaceOn h
  obtain ⟨col, hcode⟩ := Pattern.exists_hasCodeAt_namespace hf
  exact ⟨hle, exists_hasCode_firstCodeCol hline hfree hcode, exists_hasCode_of_braces hstop, hout⟩

theorem delimited_of_enumOn (h : enumOn (Code.ofSource s) index line = .ok (some r)) :
    r.Delimited s ['\x7d'] := by
  have hle := (fitsIn_of_enumOn h).1
  obtain ⟨f, stop, hf, hfree, hstop, rfl⟩ := exists_of_enumOn h
  obtain ⟨col, hcode⟩ := Pattern.exists_hasCodeAt_enum hf
  exact ⟨hle, exists_hasCode_firstCodeCol hline hfree hcode, exists_hasCode_of_braces hstop, hout⟩

theorem delimited_of_classOn (h : classOn (Code.ofSource s) index line = .ok (some r)) :
    r.Delimited s ['\x7d'] := by
  have hle := (fitsIn_of_classOn h).1
  obtain ⟨f, start, stop, hf, rfl, hfree, hstop, rfl⟩ := exists_of_classOn h
  obtain ⟨keyword, -, hkeyword, -⟩ := Pattern.holds_class hf
  rw [hkeyword] at hle hfree hstop ⊢
  have hcode := Pattern.hasCodeAt_classKeyword hf hkeyword
  exact ⟨hle, exists_hasCode_of_lt hline hfree hcode.lt_size, exists_hasCode_of_braces hstop, hout⟩

theorem delimited_of_functionOn (h : functionOn (Code.ofSource s) index line = .ok (some r)) :
    r.Delimited s ['\x7d', ';'] := by
  have hle := (fitsIn_of_functionOn h).1
  obtain ⟨f, name, stop, hf, hname, hfree, hstop, rfl⟩ := exists_of_functionOn h
  have hcode := Pattern.hasCodeAt_functionName hf hname
  exact ⟨hle, exists_hasCode_firstCodeCol hline hfree hcode,
    exists_hasCode_of_bracesOrStatement hstop, hout⟩

theorem delimited_of_conditionalOn
    (h : conditionalOn (Code.ofSource s) index line = .ok (some r)) :
    r.Delimited s ['\x7d', ';'] := by
  have hle := (fitsIn_of_conditionalOn h).1
  obtain ⟨keyword, stop, hkeyword, hstop, rfl⟩ := exists_of_conditionalOn h
  have hfree : (Code.ofSource s).inert.covers ⟨index, keyword.start⟩ = false := by
    simpa using List.find?_some hkeyword
  obtain ⟨f, hf, hpart⟩ := List.mem_filterMap.mp (List.mem_of_find?_eq_some hkeyword)
  have hcode := Pattern.hasCodeAt_conditionalWord hf hpart
  exact ⟨hle, exists_hasCode_of_lt hline hfree hcode.lt_size,
    exists_hasCode_of_conditionalEnd hstop, hout⟩

end

/-- The searches for regions that end with a brace or a semicolon, and with which of them. -/
def endedSearches : List ((Code → Except Unbalanced (List Region)) × List Char) := [
  (namespaces, ['\x7d']), (classes, ['\x7d']), (enums, ['\x7d']), (functions, ['\x7d', ';']),
  (conditionals, ['\x7d', ';'])]

/-- A search that succeeds finds at most one region for each line, from the first line to the last,
and each goes from a byte of code outside macros to one of the bytes that end it. -/
theorem delimited_of_mem_endedSearches {search : Code → Except Unbalanced (List Region)}
    {closers : List Char} (hsearch : (search, closers) ∈ endedSearches) {found : List Region}
    (h : search (Code.ofSource s) = .ok found) :
    (found.Pairwise fun a b => a.span.start.line < b.span.start.line) ∧
      ∀ r ∈ found, r.Delimited s closers := by
  have hfound {f : Nat → Line → Except Unbalanced (Option Region)}
      (hf : ∀ {index line r}, (Code.ofSource s).lines[index]? = some line →
        (Code.ofSource s).inMacro index = false → f index line = .ok (some r) →
        r.Delimited s closers)
      (hby : FoundBy (Code.ofSource s) f found) :
      (found.Pairwise fun a b => a.span.start.line < b.span.start.line) ∧
        ∀ r ∈ found, r.Delimited s closers := by
    refine ⟨hby.sorted, fun r hr => ?_⟩
    obtain ⟨line, hline, hout, hr⟩ := hby.of_mem r hr
    exact hf hline hout hr
  simp only [endedSearches, List.mem_cons, Prod.mk.injEq, List.not_mem_nil, or_false] at hsearch
  rcases hsearch with ⟨rfl, rfl⟩ | ⟨rfl, rfl⟩ | ⟨rfl, rfl⟩ | ⟨rfl, rfl⟩ | ⟨rfl, rfl⟩
  · exact hfound delimited_of_namespaceOn
      (foundBy_sweep (fun hr => (startsOn_of_namespaceOn hr).1) h)
  · exact hfound delimited_of_classOn (foundBy_sweep (fun hr => (startsOn_of_classOn hr).1) h)
  · exact hfound delimited_of_enumOn (foundBy_enums h)
  · exact hfound delimited_of_functionOn
      (foundBy_sweep (fun hr => (startsOn_of_functionOn hr).1) h)
  · exact hfound delimited_of_conditionalOn
      (foundBy_sweep (fun hr => (startsOn_of_conditionalOn hr).1) h)

def loopingUnit : Source := ⟨"loops.cpp", [
  "void f() \x7b".toList,
  "  /* ; */ for (;;) \x7b \x7d".toList,
  "  do g(); while (a);".toList,
  "\x7d".toList]⟩

theorem delimited_loopingUnit :
    conditionals (.ofSource loopingUnit) =
      .ok [⟨.conditional, "for", ⟨⟨1, 10⟩, ⟨1, 21⟩⟩⟩, ⟨.conditional, "do", ⟨⟨2, 2⟩, ⟨2, 19⟩⟩⟩] ∧
    ∀ r ∈ ([⟨.conditional, "for", ⟨⟨1, 10⟩, ⟨1, 21⟩⟩⟩, ⟨.conditional, "do", ⟨⟨2, 2⟩, ⟨2, 19⟩⟩⟩] :
      List Region), r.Delimited loopingUnit ['\x7d', ';'] := by
  have h : conditionals (.ofSource loopingUnit) =
      .ok [⟨.conditional, "for", ⟨⟨1, 10⟩, ⟨1, 21⟩⟩⟩, ⟨.conditional, "do", ⟨⟨2, 2⟩, ⟨2, 19⟩⟩⟩] := by
    decide +kernel
  exact ⟨h, (delimited_of_mem_endedSearches (by simp [endedSearches]) h).2⟩

end Region

end ScopeLint
