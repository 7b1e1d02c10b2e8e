import ScopeLint.Proofs.Code
import ScopeLint.Proofs.Text.Closed

/-!
# Literals on the lines of a unit

Comments are blanked out of the lines and literals are not: a literal stands on a blanked line at
the columns of its span, with a quote in front.
-/

namespace ScopeLint

namespace Inert

variable {s : Source} {l : Span}

theorem inComment_of_mem_literal (hl : l ∈ (ofSource s).literals.toList) {p : Position}
    (hp : p ∈ l) : (ofSource s).inComment p = false := by
  refine Bool.eq_false_iff.mpr fun hin => ?_
  obtain ⟨c, hc, hpc⟩ := inComment_iff.mp hin
  exact apart_of_ne (mem_comments.mp hc) (mem_literals.mp hl) (by simp) p ⟨hpc, hp⟩

theorem start_mem_of_literal (hl : l ∈ (ofSource s).literals.toList) : l.start ∈ l :=
  ⟨Position.le_refl _, (literals_inOrder s).1 l hl⟩

theorem byteAt?_start_of_literal (hl : l ∈ (ofSource s).literals.toList) :
    s.byteAt? l.start = some doubleQuote ∨ s.byteAt? l.start = some singleQuote := by
  rcases ofSource_literals hl with ⟨hquote, -⟩ | ⟨hquote, -⟩
  · exact .inl hquote
  · exact .inr hquote

theorem columns_literals (s : Source) (index : Nat) :
    Line.Columns (fun col => (ofSource s).inLiteral ⟨index, col⟩)
      (fun first last => ⟨⟨index, first⟩, ⟨index, last⟩⟩ ∈ (ofSource s).literals.toList) where
  inside_iff col := by
    rw [inLiteral_iff]
    constructor
    · rintro ⟨⟨⟨row, first⟩, ⟨row', last⟩⟩, hl, hstart, hstop⟩
      obtain rfl : row' = row := (ofSource_literals hl).stop_line
      rw [Position.le_def] at hstart hstop
      obtain rfl : row' = index := by
        simp only at hstart hstop
        omega
      simp only at hstart hstop
      exact ⟨first, last, hl, by omega, by omega⟩
    · rintro ⟨first, last, hl, hle, hge⟩
      exact ⟨_, hl, .inr ⟨rfl, hle⟩, .inr ⟨rfl, hge⟩⟩
  apart := by
    intro first last first' last' hl hl' hle hge
    by_contra hne
    refine apart_of_ne (mem_literals.mp hl) (mem_literals.mp hl') ?_ ⟨index, first'⟩ ⟨⟨?_, ?_⟩, ?_⟩
    · intro heq
      simp only [Piece.literal.injEq, Span.mk.injEq, Position.mk.injEq, true_and] at heq
      exact hne heq.2.symm
    · exact .inr ⟨rfl, hle⟩
    · exact .inr ⟨rfl, hge⟩
    · exact start_mem_of_literal hl'

end Inert

namespace Code

variable {s : Source} {index : Nat} {x : Line}

theorem getElem?_encode_line (hx : (ofSource s).lines[index]? = some x) (col : Nat) :
    (Utf8.encode x)[col]? = (s.byteAt? ⟨index, col⟩).map fun b =>
      if (Inert.ofSource s).inComment ⟨index, col⟩ then 32 else b := by
  unfold ofSource at hx
  rw [Inert.getElem?_blankLines, Option.map_eq_some_iff] at hx
  obtain ⟨line, hline, rfl⟩ := hx
  rw [Nat.zero_add, Inert.encode_blankLine hline, Inert.getElem?_blankBytes, Nat.zero_add,
    Source.byteAt?_eq hline]

theorem exists_quote (hx : (ofSource s).lines[index]? = some x) {first last : Nat}
    (hl : ⟨⟨index, first⟩, ⟨index, last⟩⟩ ∈ (Inert.ofSource s).literals.toList) :
    ∃ front q back, x = front ++ q :: back ∧ Line.size front = first ∧ IsQuote q := by
  have hbyte := getElem?_encode_line hx first
  rw [Inert.inComment_of_mem_literal hl (Inert.start_mem_of_literal hl)] at hbyte
  apply Line.exists_quote_of_byte
  rcases Inert.byteAt?_start_of_literal hl with hquote | hquote
  · exact .inl (by rw [hbyte, hquote]; rfl)
  · exact .inr (by rw [hbyte, hquote]; rfl)

/-! ## Closed literals -/

def lineOf (code : Code) (l : Span) : Line := (code.lines[l.start.line]?).getD []

/-- The literal ends with a quote and has no other characters than those that are `ok`; no word of a
loop comes directly behind it. -/
def Closes (ok : Char → Prop) (code : Code) (l : Span) : Prop :=
  ((code.lineOf l).byteAt? l.stop.col = some Inert.doubleQuote ∨
      (code.lineOf l).byteAt? l.stop.col = some Inert.singleQuote) ∧
    (∀ c ∈ (code.lineOf l).slice l.start.col (l.stop.col + 1), ok c) ∧
    ((code.lineOf l).slice (l.stop.col + 1) (code.lineOf l).size).NoLoopWord

def ClosedLiterals (ok : Char → Prop) (code : Code) : Prop :=
  ∀ l ∈ code.inert.literals.toList, code.Closes ok l

variable {ok ok' : Char → Prop}

instance [DecidablePred ok] (code : Code) (l : Span) : Decidable (code.Closes ok l) :=
  have : Decidable (∀ c ∈ (code.lineOf l).slice l.start.col (l.stop.col + 1), ok c) :=
    List.decidableBAll ok _
  inferInstanceAs (Decidable (_ ∧ _ ∧ _))

instance [DecidablePred ok] (code : Code) : Decidable (code.ClosedLiterals ok) :=
  List.decidableBAll (code.Closes ok) _

theorem ClosedLiterals.imp {code : Code} (h : code.ClosedLiterals ok) (hok : ∀ c, ok c → ok' c) :
    code.ClosedLiterals ok' := fun l hl =>
  ⟨(h l hl).1, fun c hc => hok c ((h l hl).2.1 c hc), (h l hl).2.2⟩

theorem ClosedLiterals.closedAt (h : (ofSource s).ClosedLiterals ok)
    (hx : (ofSource s).lines[index]? = some x) {first last : Nat}
    (hl : ⟨⟨index, first⟩, ⟨index, last⟩⟩ ∈ (Inert.ofSource s).literals.toList) :
    Line.ClosedAt ok x first last := by
  obtain ⟨hquote, hok, hbehind⟩ := h _ hl
  have hline : (ofSource s).lineOf ⟨⟨index, first⟩, ⟨index, last⟩⟩ = x := by
    rw [lineOf, hx, Option.getD_some]
  rw [hline] at hquote hok hbehind
  have hle : first ≤ last := by
    have := (Inert.start_mem_of_literal hl).2
    rw [Position.le_def] at this
    simp only at this
    omega
  obtain ⟨front, q, back, hfront, rfl, hq⟩ := exists_quote hx hl
  obtain ⟨text, r, behind, htext, rfl, hr⟩ := Line.exists_quote_of_byte hquote
  -- What stands in front of the closing quote starts with what stands in front of the literal.
  obtain ⟨mid, rfl, hmid⟩ : ∃ mid, text = front ++ mid ∧ q :: back = mid ++ r :: behind := by
    rcases List.append_eq_append_iff.mp (hfront.symm.trans htext) with h | ⟨mid, rfl, hmid⟩
    · exact h
    · rw [Line.size_append] at hle
      obtain rfl : mid = [] := Line.size_eq_zero.mp (by omega)
      exact ⟨[], by rw [List.append_nil, List.append_nil], hmid.symm⟩
  have hopening : (mid ++ [r]).head? = some q := by
    cases mid with
    | nil => rw [(List.cons.inj hmid).1]; rfl
    | cons c mid => rw [(List.cons.inj hmid).1]; rfl
  have hrSize := Line.utf8Size_of_isQuote hr
  have hstop : Line.size (front ++ mid) + 1 = Line.size front + Line.size (mid ++ [r]) := by
    rw [Line.size_append, Line.size_append, Line.size, Line.size, hrSize]
    omega
  have hlineText : x = front ++ (mid ++ [r]) ++ behind := by
    rw [htext]
    simp
  have hslice : x.slice (Line.size front) (Line.size (front ++ mid) + 1) = mid ++ [r] := by
    rw [hstop, hlineText, Line.slice_append]
  have hrest : x.slice (Line.size (front ++ mid) + 1) x.size = behind := by
    have hbehind := Line.slice_append (front ++ (mid ++ [r])) behind []
    rwa [List.append_nil, ← Line.size_append, ← hlineText, Line.size_append, ← hstop] at hbehind
  rw [hslice] at hok
  rw [hrest] at hbehind
  rw [Line.size_append, htext, List.append_assoc]
  exact .intro hopening hq hr (fun c hc => hok c (List.mem_append_left _ hc)) hbehind

end Code

end ScopeLint
