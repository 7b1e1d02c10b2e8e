import Mathlib.Data.List.Pairwise
import ScopeLint.Proofs.Inert.Reading

/-!
# Comments and literals are found as the rules have them

The comments and the literals of a unit are in order, do not overlap, each is one by the rules, and
none is missed. What a unit is asked about a position is answered by the spans that hold it.
-/

namespace ScopeLint.Inert

variable {s : Source}

/-! ## Comments and literals among the pieces -/

theorem mem_comments {c : Comment} : c ∈ (ofSource s).comments.toList ↔ .comment c ∈ pieces s := by
  simp only [ofSource, ofPieces, List.mem_filterMap]
  constructor
  · rintro ⟨x, hx, h⟩
    cases x with
    | comment c' => rwa [← Option.some.inj h]
    | literal l => cases h
  · intro h
    exact ⟨_, h, rfl⟩

theorem mem_literals {l : Span} : l ∈ (ofSource s).literals.toList ↔ .literal l ∈ pieces s := by
  simp only [ofSource, ofPieces, List.mem_filterMap]
  constructor
  · rintro ⟨x, hx, h⟩
    cases x with
    | comment c => cases h
    | literal l' => rwa [← Option.some.inj h]
  · intro h
    exact ⟨_, h, rfl⟩

theorem ofSource_comments {c : Comment} (h : c ∈ (ofSource s).comments.toList) : IsComment s c :=
  ((pieces_tiled s).isPiece (mem_comments.mp h)).1

theorem ofSource_literals {l : Span} (h : l ∈ (ofSource s).literals.toList) : IsLiteral s l :=
  ((pieces_tiled s).isPiece (mem_literals.mp h)).1

theorem pairwise_comments :
    (ofSource s).comments.toList.Pairwise fun a b => a.span.stop < b.span.start := by
  simp only [ofSource, ofPieces]
  refine (pieces_tiled s).pairwise.filterMap _ ?_
  intro x y hxy c hc d hd
  cases x <;> cases y <;> simp_all [Piece.span]

theorem pairwise_literals :
    (ofSource s).literals.toList.Pairwise fun a b => a.stop < b.start := by
  simp only [ofSource, ofPieces]
  refine (pieces_tiled s).pairwise.filterMap _ ?_
  intro x y hxy c hc d hd
  cases x <;> cases y <;> simp_all [Piece.span]

theorem comments_inOrder (s : Source) :
    Span.InOrder ((ofSource s).comments.toList.map Comment.span) := by
  refine ⟨?_, List.pairwise_map.mpr pairwise_comments⟩
  intro span hspan
  obtain ⟨c, hc, rfl⟩ := List.mem_map.mp hspan
  exact ((pieces_tiled s).isPiece (mem_comments.mp hc)).2

theorem literals_inOrder (s : Source) : Span.InOrder (ofSource s).literals.toList :=
  ⟨fun _ hl => ((pieces_tiled s).isPiece (mem_literals.mp hl)).2, pairwise_literals⟩

/-! ## Asking -/

theorem inComment_iff {p : Position} :
    (ofSource s).inComment p = true ↔ ∃ c ∈ (ofSource s).comments.toList, p ∈ c.span :=
  isSome_findContaining_iff (comments_inOrder s) p

theorem inComment_iff_span {p : Position} : (ofSource s).inComment p = true ↔
    ∃ span ∈ (ofSource s).comments.toList.map Comment.span, p ∈ span := by
  rw [inComment_iff]
  simp

theorem inLiteral_iff {p : Position} :
    (ofSource s).inLiteral p = true ↔ ∃ l ∈ (ofSource s).literals.toList, p ∈ l := by
  refine isSome_findContaining_iff ?_ p
  rw [List.map_id]
  exact literals_inOrder s

theorem inComment_congr {a b : Source} (h : (ofSource a).comments.toList.map Comment.span =
    (ofSource b).comments.toList.map Comment.span) :
    (ofSource a).inComment = (ofSource b).inComment := by
  funext p
  rw [Bool.eq_iff_iff, inComment_iff_span, inComment_iff_span, h]

theorem covers_congr {a b : Source} (hcomments : (ofSource a).comments.toList.map Comment.span =
      (ofSource b).comments.toList.map Comment.span)
    (hliterals : (ofSource a).literals = (ofSource b).literals) :
    (ofSource a).covers = (ofSource b).covers := by
  funext p
  unfold covers inLiteral
  rw [inComment_congr hcomments, hliterals]

/-! ## Overlaps -/

theorem apart_of_ne {x y : Piece} (hx : x ∈ pieces s) (hy : y ∈ pieces s) (hne : x ≠ y) :
    x.span.Apart y.span := by
  have hpairwise : (pieces s).Pairwise fun x y => x.span.Apart y.span :=
    (pieces_tiled s).pairwise.imp Span.apart_of_lt
  have : Std.Symm fun x y : Piece => x.span.Apart y.span := ⟨fun _ _ => Span.Apart.symm⟩
  exact hpairwise.forall hx hy hne

/-! ## The whole -/

/-- The comments and literals of a unit are those that the rules ask for. -/
structure IsLexing (s : Source) (i : Inert) : Prop where
  comments_increase : i.comments.toList.Pairwise fun a b => a.span.start < b.span.start
  literals_increase : i.literals.toList.Pairwise fun a b => a.start < b.start
  apart : (i.comments.toList.map Comment.span ++ i.literals.toList).Pairwise Span.Apart
  start_le_stop : ∀ span ∈ i.comments.toList.map Comment.span ++ i.literals.toList,
    span.start ≤ span.stop
  isComment : ∀ c ∈ i.comments.toList, IsComment s c
  isLiteral : ∀ l ∈ i.literals.toList, IsLiteral s l
  literal_line : ∀ l ∈ i.literals.toList, l.stop.line = l.start.line
  /-- Nothing is missed: a byte in no span opens nothing. -/
  isPlain : ∀ p, (∀ c ∈ i.comments.toList, p ∉ c.span) → (∀ l ∈ i.literals.toList, p ∉ l) →
    IsPlain s p

theorem IsLiteral.stop_line {l : Span} (h : IsLiteral s l) : l.stop.line = l.start.line := by
  rcases h with ⟨-, ⟨p, hp, -, hstop⟩ | ⟨-, hstop⟩⟩ | ⟨-, hstop⟩
  · rw [hstop]
    exact hp.1
  · rw [hstop, lineEnd]
  · rw [hstop]

/-- The reader finds exactly the comments and literals of the unit. -/
theorem ofSource_isLexing (s : Source) : IsLexing s (ofSource s) where
  comments_increase := by
    have hstarts := (comments_inOrder s).starts
    rw [List.pairwise_map] at hstarts
    exact hstarts
  literals_increase := (literals_inOrder s).starts
  apart := by
    rw [List.pairwise_append]
    refine ⟨(comments_inOrder s).2.imp Span.apart_of_lt,
      (literals_inOrder s).2.imp Span.apart_of_lt, ?_⟩
    intro span hspan l hl
    obtain ⟨c, hc, rfl⟩ := List.mem_map.mp hspan
    exact apart_of_ne (mem_comments.mp hc) (mem_literals.mp hl) (by simp)
  start_le_stop := by
    intro span hspan
    rcases List.mem_append.mp hspan with hspan | hspan
    · exact (comments_inOrder s).1 span hspan
    · exact (literals_inOrder s).1 span hspan
  isComment _ hc := ofSource_comments hc
  isLiteral _ hl := ofSource_literals hl
  literal_line _ hl := (ofSource_literals hl).stop_line
  isPlain := by
    intro p hcomments hliterals
    refine (pieces_tiled s).isPlain (Position.origin_le p) fun x hx => ?_
    cases x with
    | comment c => exact hcomments c (mem_comments.mpr hx)
    | literal l => exact hliterals l (mem_literals.mpr hx)

end ScopeLint.Inert
