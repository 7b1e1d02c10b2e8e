import ScopeLint.Proofs.Extent.Nesting
import ScopeLint.Proofs.Region.Admission
import ScopeLint.Proofs.Region.Delimited

/-!
# Where the body of a region opens

A region that ends with a brace is closed from the first brace of its code on, with one exception:
the clause of a `for` is passed over when its body is looked for, and may have braces of its own.
-/

namespace ScopeLint

variable {s : Source} {start p q stop : Position}

/-! ## First braces -/

/-- The first opening brace of the code at or behind `start`. -/
structure Source.FirstBrace (s : Source) (start q : Position) : Prop where
  start_le : start ≤ q
  hasCode : s.HasCode q '\x7b'.toUInt8
  le_of_hasCode : ∀ p, s.HasCode p '\x7b'.toUInt8 → start ≤ p → q ≤ p

namespace Source.FirstBrace

theorem widen {front : Position} (h : s.FirstBrace start q) (hle : front ≤ start)
    (hnone : ∀ p, s.HasCode p '\x7b'.toUInt8 → front ≤ p → start ≤ p) : s.FirstBrace front q where
  start_le := Position.le_trans hle h.start_le
  hasCode := h.hasCode
  le_of_hasCode p hp hfront := h.le_of_hasCode p hp (hnone p hp hfront)

theorem of_append {skipped back : List CodeByte} {x : CodeByte}
    (h : (Code.ofSource s).bytesAt start = skipped ++ x :: back)
    (hx : x.byte = '\x7b'.toUInt8) (hskipped : ∀ b ∈ skipped, b.byte ≠ '\x7b'.toUInt8) :
    s.FirstBrace start x.pos := by
  have hsorted := Code.pairwise_bytesAt s start
  rw [h] at hsorted
  have hmem : x ∈ (Code.ofSource s).bytesAt start := by simp [h]
  obtain ⟨hbytes, hle⟩ := Code.mem_bytesAt.mp hmem
  refine ⟨hle, hx ▸ Source.hasCode_of_mem_bytes hbytes, fun p hp hstart => ?_⟩
  have hp' : (⟨p, '\x7b'.toUInt8⟩ : CodeByte) ∈ skipped ++ x :: back :=
    h ▸ Code.mem_bytesAt.mpr ⟨Code.mem_bytes.mpr hp, hstart⟩
  refine Position.not_lt.mp fun hlt => ?_
  exact hskipped _ ((Code.mem_front_iff hsorted).mpr ⟨hp', hlt⟩) rfl

theorem exists_of_hasCode (hp : s.HasCode p '\x7b'.toUInt8) (hle : start ≤ p) :
    ∃ q, s.FirstBrace start q ∧ q ≤ p := by
  have hmem : (⟨p, '\x7b'.toUInt8⟩ : CodeByte) ∈ (Code.ofSource s).bytesAt start :=
    Code.mem_bytesAt.mpr ⟨Code.mem_bytes.mpr hp, hle⟩
  generalize hbytes : (Code.ofSource s).bytesAt start = bytes at hmem
  cases Extent.begins .braces bytes with
  | opens hskipped hq =>
    have hfirst := of_append hbytes hq fun b hb => (hskipped b hb).1
    exact ⟨_, hfirst, hfirst.le_of_hasCode p hp hle⟩
  | ends _ hend => cases hend
  | passes hpassed => exact absurd rfl (hpassed _ hmem).1

end Source.FirstBrace

namespace Extent

/-! ## Closing the first brace -/

/-- Inside a group it does not matter whether a semicolon in front of it would have counted. -/
theorem read_succ_bracesOrStatement (depth : Nat) (bytes : List CodeByte) :
    read .bracesOrStatement (depth + 1) bytes = read .braces (depth + 1) bytes := by
  induction bytes generalizing depth with
  | nil => rfl
  | cons b rest ih =>
    have hopening : Delimiters.bracesOrStatement.opening = Delimiters.braces.opening := rfl
    have hclosing : Delimiters.bracesOrStatement.closing = Delimiters.braces.closing := rfl
    cases depth with
    | zero => rw [read, read, ih, ih, hopening, hclosing, if_pos rfl, if_pos rfl]
    | succ depth => rw [read, read, ih, ih, ih, hopening, hclosing]

theorem exists_firstBrace_of_resolve {d : Delimiters} (hd : d ∈ [.braces, .bracesOrStatement])
    (h : resolve (Code.ofSource s) start d = .ok stop)
    (hstop : s.byteAt? stop = some '\x7d'.toUInt8) :
    ∃ q, s.FirstBrace start q ∧ q < stop ∧ resolve (Code.ofSource s) q .braces = .ok stop := by
  have hread := resolve_eq_ok_iff.mp h
  have hsorted := Code.pairwise_bytesAt s start
  have hopening : d.opening = '\x7b' ∧ ∀ bytes, read d 1 bytes = read .braces 1 bytes := by
    simp only [List.mem_cons, List.not_mem_nil, or_false] at hd
    rcases hd with rfl | rfl
    · exact ⟨rfl, fun _ => rfl⟩
    · exact ⟨rfl, read_succ_bracesOrStatement 0⟩
  generalize hbytes : (Code.ofSource s).bytesAt start = bytes at hread hsorted
  cases begins d bytes with
  | @opens skipped back q hskipped hq =>
    rw [read_append_of_opening hskipped hq, hopening.2] at hread
    rw [hopening.1] at hq
    refine ⟨q.pos, .of_append hbytes hq fun b hb => ?_, ?_, ?_⟩
    · rw [← hopening.1]
      exact (hskipped b hb).1
    · obtain ⟨b, hb, rfl, -⟩ := exists_mem_of_read hread
      exact List.rel_of_pairwise_cons (List.pairwise_append.mp hsorted).2.1 hb
    · rw [resolve_eq_ok_iff, bytesAt_eq_of_append hbytes, read_cons_opening hq, hread]
  | @ends skipped back x hskipped hend hx =>
    have hne : ';'.toUInt8 ≠ d.opening.toUInt8 := by rw [hopening.1]; decide
    rw [read_append_of_passed hskipped, read_cons_statement hx hne hend] at hread
    have hmem : x ∈ (Code.ofSource s).bytesAt start := by simp [hbytes]
    have hbyte := (Code.mem_bytes.mp (Code.mem_bytesAt.mp hmem).1).2
    rw [Reading.closed.inj hread, hstop, hx] at hbyte
    exact absurd (Option.some.inj hbyte) (by decide)
  | passes hpassed =>
    rw [read_of_passed hpassed] at hread
    cases hread

theorem resolve_ne_of_lt (hp : s.HasCode p '\x7b'.toUInt8) (hq : s.HasCode q '\x7b'.toUInt8)
    (hlt : p < q) (h : resolve (Code.ofSource s) q .braces = .ok stop) :
    resolve (Code.ofSource s) p .braces ≠ .ok stop := by
  intro hboth
  have hle : q ≤ stop := (fitsIn_of_resolve h).1
  rcases lt_or_lt_of_resolve (d := .braces) hp hq hlt hboth h with hlt | hlt
  · exact Position.not_le.mpr hlt hle
  · exact Position.lt_irrefl stop hlt

end Extent

namespace Region

variable {index : Nat} {line : Line} {r : Region}

/-! ## Regions that end with a brace -/

/-- A brace stands between the start of the span and the parenthesis that closes the first group of
parentheses from there on: that is the clause of a `for`. -/
def BracedClause (s : Source) (span : Span) : Prop :=
  ∃ closing p, Extent.resolve (Code.ofSource s) span.start .parentheses = .ok closing ∧
    s.HasCode p '\x7b'.toUInt8 ∧ span.start ≤ p ∧ p < closing

/-- The first brace of a region, and whether the region is closed from there on. -/
structure Opened (s : Source) (r : Region) (q : Position) : Prop where
  first : s.FirstBrace r.span.start q
  lt_stop : q < r.span.stop
  closes_iff : Extent.resolve (Code.ofSource s) q .braces = .ok r.span.stop ↔
    ¬(r.kind = .conditional ∧ r.name = "for" ∧ BracedClause s r.span)

def Opens (s : Source) (r : Region) : Prop :=
  s.byteAt? r.span.stop = some '\x7d'.toUInt8 → ∃ q, r.Opened s q

theorem opens_of_resolve {d : Delimiters} (hd : d ∈ [.braces, .bracesOrStatement])
    (h : Extent.resolve (Code.ofSource s) r.span.start d = .ok r.span.stop)
    (hfor : ¬(r.kind = .conditional ∧ r.name = "for")) : r.Opens s := by
  intro hstop
  obtain ⟨q, hfirst, hlt, hclosed⟩ := Extent.exists_firstBrace_of_resolve hd h hstop
  exact ⟨q, hfirst, hlt, iff_of_true hclosed fun hclause => hfor ⟨hclause.1, hclause.2.1⟩⟩

theorem opens_of_namespaceOn (h : namespaceOn (Code.ofSource s) index line = .ok (some r)) :
    r.Opens s := by
  obtain ⟨f, stop, -, -, hstop, rfl⟩ := exists_of_namespaceOn h
  exact opens_of_resolve (by simp) hstop (by simp)

theorem opens_of_enumOn (h : enumOn (Code.ofSource s) index line = .ok (some r)) :
    r.Opens s := by
  obtain ⟨f, stop, -, -, hstop, rfl⟩ := exists_of_enumOn h
  exact opens_of_resolve (by simp) hstop (by simp)

theorem opens_of_classOn (h : classOn (Code.ofSource s) index line = .ok (some r)) :
    r.Opens s := by
  obtain ⟨f, start, stop, -, -, -, hstop, rfl⟩ := exists_of_classOn h
  exact opens_of_resolve (by simp) hstop (by simp)

theorem getElem?_encode_of_hasCode {b : UInt8} (h : s.HasCode p b)
    (hline : (Code.ofSource s).lines[p.line]? = some line) :
    (Utf8.encode line)[p.col]? = some b := by
  obtain ⟨hfree, hbyte⟩ := h
  rw [Inert.covers, Bool.or_eq_false_iff] at hfree
  replace hline : ((Inert.ofSource s).blankLines 0 s.lines)[p.line]? = some line := hline
  rw [Inert.getElem?_blankLines, Option.map_eq_some_iff] at hline
  obtain ⟨original, horiginal, rfl⟩ := hline
  rw [Source.byteAt?_eq horiginal] at hbyte
  rw [Nat.zero_add, Inert.encode_blankLine horiginal, Inert.getElem?_blankBytes, hbyte,
    Option.map_some, Nat.zero_add, if_neg (Bool.eq_false_iff.mp hfree.1)]

theorem le_of_functionHead {f : Pattern.Found} {name : Capture}
    (hline : (Code.ofSource s).lines[index]? = some line)
    (hf : Pattern.functionHead.matchLine line = some f) (hname : f.part? .name = some name)
    (hp : s.HasCode p '\x7b'.toUInt8) (hle : (⟨index, line.firstCodeCol⟩ : Position) ≤ p) :
    (⟨index, name.start⟩ : Position) ≤ p := by
  refine Position.not_lt.mp fun hlt => ?_
  rw [Position.le_def] at hle
  rw [Position.lt_def] at hlt
  obtain ⟨rfl, hcol⟩ : p.line = index ∧ p.col < name.start := by
    simp only at hle hlt
    omega
  obtain ⟨front, rest, rfl, hstart, hfront⟩ := Pattern.exists_front_functionName hf hname
  have hbyte := getElem?_encode_of_hasCode hp hline
  rw [Line.encode_append, List.getElem?_append_left (by rwa [Line.length_encode, ← hstart])] at hbyte
  obtain ⟨c, hc, hmem⟩ := List.mem_flatMap.mp (List.mem_of_getElem? hbyte)
  have hno : (Pattern.isNameChar (Char.ofNat 0x7b) || isBlank (Char.ofNat 0x7b)) = false := by decide
  have hcode : c.toNat = 0x7b := Utf8.toNat_eq_of_mem hmem (by decide)
  rw [← hcode, Char.ofNat_toNat, hfront c hc] at hno
  cases hno

theorem opens_of_functionOn (hline : (Code.ofSource s).lines[index]? = some line)
    (h : functionOn (Code.ofSource s) index line = .ok (some r)) : r.Opens s := by
  obtain ⟨f, name, stop, hf, hname, -, hstop, rfl⟩ := exists_of_functionOn h
  intro hbrace
  obtain ⟨q, hfirst, hlt, hclosed⟩ := Extent.exists_firstBrace_of_resolve (by simp) hstop hbrace
  have hcode := (Pattern.hasCodeAt_functionName hf hname).firstCodeCol_le
  refine ⟨q, hfirst.widen (.inr ⟨rfl, hcode⟩) fun p => le_of_functionHead hline hf hname, hlt, ?_⟩
  exact iff_of_true hclosed fun hclause => by simp at hclause

theorem conditionalName_eq_for {keyword : Capture} : conditionalName line keyword = "for".toList ↔
    line.slice keyword.start keyword.stop = "for".toList := by
  unfold conditionalName
  simp only
  split
  · rename_i helse _
    rw [eq_of_beq helse]
    split <;> exact iff_of_false (by decide) (by decide)
  · rfl

theorem name_eq_for {keyword : Capture} : String.ofList (conditionalName line keyword) = "for" ↔
    line.slice keyword.start keyword.stop = "for".toList := by
  rw [← conditionalName_eq_for, ← String.toList_inj, String.toList_ofList]

/-- The body of a `for` is looked for behind its clause, so that it is opened by a brace of the clause
if there is one. -/
theorem opens_of_clause {closing : Position} (hfor : r.kind = .conditional ∧ r.name = "for")
    (hclosing : Extent.resolve (Code.ofSource s) r.span.start .parentheses = .ok closing)
    (hbody : Extent.resolve (Code.ofSource s) (Extent.behind closing) .bracesOrStatement =
      .ok r.span.stop) : r.Opens s := by
  intro hstop
  obtain ⟨q, hfirst, hlt, hclosed⟩ := Extent.exists_firstBrace_of_resolve (by simp) hbody hstop
  have hbehind : closing < q := Position.after_one_le.mp hfirst.start_le
  by_cases hclause : BracedClause s r.span
  · obtain ⟨closing', p, hclosing', hp, hle, hbefore⟩ := id hclause
    obtain rfl := Except.ok.inj (hclosing.symm.trans hclosing')
    obtain ⟨p₀, hp₀, hle₀⟩ := Source.FirstBrace.exists_of_hasCode hp hle
    have hinside : p₀ < q := Position.lt_of_le_of_lt hle₀ (Position.lt_trans hbefore hbehind)
    exact ⟨p₀, hp₀, Position.lt_trans hinside hlt, iff_of_false
      (Extent.resolve_ne_of_lt hp₀.hasCode hfirst.hasCode hinside hclosed)
      (not_not.mpr ⟨hfor.1, hfor.2, hclause⟩)⟩
  · obtain ⟨x, hx, rfl, hend⟩ := Extent.exists_of_resolve hclosing
    have hparenthesis : x.byte = ')'.toUInt8 := hend.resolve_right fun h => Bool.false_ne_true h.1
    obtain ⟨hbytes, hstart⟩ := Code.mem_bytesAt.mp hx
    have hbyte := (Code.mem_bytes.mp hbytes).2
    have hnone : ∀ p, s.HasCode p '\x7b'.toUInt8 → r.span.start ≤ p → Extent.behind x.pos ≤ p := by
      refine fun p hp hle => Position.not_lt.mp fun hbefore => ?_
      rcases Position.lt_after_one.mp hbefore with hbefore | rfl
      · exact hclause ⟨x.pos, p, hclosing, hp, hle, hbefore⟩
      · rw [hp.2, hparenthesis] at hbyte
        exact absurd (Option.some.inj hbyte) (by decide)
    exact ⟨q, hfirst.widen (Position.le_trans hstart (Extent.le_behind x.pos)) hnone, hlt,
      iff_of_true hclosed fun h => hclause h.2.2⟩

theorem opens_of_conditionalOn (h : conditionalOn (Code.ofSource s) index line = .ok (some r)) :
    r.Opens s := by
  obtain ⟨keyword, stop, -, hstop, rfl⟩ := exists_of_conditionalOn h
  rcases conditionalEnd_cases hstop with ⟨hword, closing, hclosing, hbody⟩ | ⟨-, hend⟩ | ⟨hword, hbody⟩
  · exact opens_of_clause ⟨rfl, name_eq_for.mpr hword⟩ hclosing hbody
  · -- A loop that tests at its end does not end with a brace.
    obtain ⟨afterWord, -, hstatement⟩ := exists_of_loopEnd hend
    have hbyte := (hasCode_of_loopStatement? hstatement).2
    intro hbrace
    rw [hbyte] at hbrace
    exact absurd (Option.some.inj hbrace) (by decide)
  · exact opens_of_resolve (by simp) hbody fun hfor => hword (name_eq_for.mp hfor.2)

/-! ## All regions -/

def bracedKinds : List Kind :=
  [.namespaceBlock, .classBlock, .enumBlock, .anyFunction, .conditional]

theorem opens_of_mem_search {search : Code → Except Unbalanced (List Region)}
    (hsearch : search ∈ searches) {found : List Region} (h : search (Code.ofSource s) = .ok found) :
    ∀ r ∈ found, r.kind ∈ bracedKinds → r.Opens s := by
  simp only [searches, List.mem_cons, List.not_mem_nil, or_false] at hsearch
  rcases hsearch with rfl | rfl | rfl | rfl | rfl | rfl
  · exact forall_mem_sweep h fun _ _ _ _ hr _ => opens_of_namespaceOn hr
  · exact forall_mem_enums h fun _ _ _ _ hr _ => opens_of_enumOn hr
  · exact forall_mem_sweep h fun _ _ _ _ hr _ => opens_of_classOn hr
  · exact forall_mem_sweep h fun _ _ _ hline hr _ => opens_of_functionOn hline hr
  · refine forall_mem_sweep h fun _ _ _ _ hr hkind => ?_
    obtain ⟨_, _, -, -, rfl⟩ := exists_of_variableOn (Except.ok.inj hr)
    simp [bracedKinds] at hkind
  · exact forall_mem_sweep h fun _ _ _ _ hr _ => opens_of_conditionalOn hr

theorem opens_of_mem_ofCode {regions : List Region} (h : ofCode (Code.ofSource s) = .ok regions) :
    ∀ r ∈ regions, r.kind ∈ bracedKinds → r.Opens s := by
  intro r hr hkind
  unfold ofCode at h
  obtain ⟨found, hfound, rfl⟩ := exists_of_map_eq_ok h
  rcases List.mem_append.mp hr with hr | hr
  · rcases List.mem_append.mp hr with hr | hr
    · obtain ⟨c, -, rfl⟩ := List.mem_map.mp hr
      cases hstyle : c.style <;> simp [ofComment, hstyle, CommentStyle.kind, bracedKinds] at hkind
    · obtain ⟨d, -, rfl⟩ := List.mem_map.mp hr
      simp [ofMacro, bracedKinds] at hkind
  · obtain ⟨search, hsearch, structures, hstructures, hr⟩ := exists_of_mem_runSearches hfound hr
    exact opens_of_mem_search hsearch hstructures r hr hkind

end Region

end ScopeLint
