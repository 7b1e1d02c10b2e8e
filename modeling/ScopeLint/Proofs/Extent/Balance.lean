import ScopeLint.Proofs.Extent.Count
import ScopeLint.Proofs.Extent.Marks

/-!
# Where groups balance

The bytes of a unit that no comment or literal covers, in reading order, say where an extent ends:
at a semicolon in front of the first group, or where the first group balances. Closing brackets in
front of it are not counted.
-/

namespace ScopeLint

/-- The bytes at or behind a position that no comment or literal covers, in reading order. -/
structure Code.ReadsFrom (s : Source) (start : Position) (bytes : List CodeByte) : Prop where
  sorted : bytes.Pairwise fun a b => a.pos < b.pos
  mem_iff : ∀ x : CodeByte, x ∈ bytes ↔
    start ≤ x.pos ∧ (Inert.ofSource s).covers x.pos = false ∧ s.byteAt? x.pos = some x.byte

theorem Code.readsFrom_bytesAt (s : Source) (start : Position) :
    Code.ReadsFrom s start ((Code.ofSource s).bytesAt start) where
  sorted := Code.pairwise_bytesAt s start
  mem_iff := by
    intro x
    rw [Code.mem_bytesAt, Code.mem_bytes, and_comm]

namespace Extent

variable {d : Delimiters} {bytes skipped front back rest : List CodeByte} {b q x y : CodeByte}

structure Distinct (d : Delimiters) : Prop where
  closing : d.opening.toUInt8 ≠ d.closing.toUInt8
  statement_opening : ';'.toUInt8 ≠ d.opening.toUInt8
  statement_closing : ';'.toUInt8 ≠ d.closing.toUInt8

theorem distinct_of_mem_all (hd : d ∈ Delimiters.all) : Distinct d := by
  simp only [Delimiters.all, List.mem_cons, List.not_mem_nil, or_false] at hd
  rcases hd with rfl | rfl | rfl <;> exact ⟨by decide, by decide, by decide⟩

/-! ## Bytes between positions -/

def between (bytes : List CodeByte) (first last : Position) : List CodeByte :=
  bytes.filter fun b => decide (first ≤ b.pos ∧ b.pos ≤ last)

theorem between_eq {group : List CodeByte} (hfirst : group = q :: back)
    (hlast : group = front ++ [y])
    (hsorted : (skipped ++ (group ++ rest)).Pairwise fun a b => a.pos < b.pos) :
    between (skipped ++ (group ++ rest)) q.pos y.pos = group := by
  obtain ⟨-, htail, hskipped⟩ := List.pairwise_append.mp hsorted
  obtain ⟨hgroup, -, hrest⟩ := List.pairwise_append.mp htail
  have hq : q ∈ group := hfirst ▸ List.mem_cons_self
  have hy : y ∈ group := hlast ▸ List.mem_concat_self
  have hinside : ∀ b ∈ group, q.pos ≤ b.pos ∧ b.pos ≤ y.pos := by
    intro b hb
    constructor
    · rw [hfirst] at hgroup hb
      rcases List.mem_cons.mp hb with rfl | hb
      · exact Position.le_refl _
      · exact Position.le_of_lt (List.rel_of_pairwise_cons hgroup hb)
    · rw [hlast] at hgroup hb
      rcases List.mem_append.mp hb with hb | hb
      · exact Position.le_of_lt ((List.pairwise_append.mp hgroup).2.2 b hb y (by simp))
      · rw [List.mem_singleton.mp hb]
        exact Position.le_refl _
  have hbefore : ∀ b ∈ skipped, ¬q.pos ≤ b.pos := by
    intro b hb
    exact Position.not_le.mpr (hskipped b hb q (List.mem_append_left _ hq))
  have hbehind : ∀ b ∈ rest, ¬b.pos ≤ y.pos := fun b hb => Position.not_le.mpr (hrest y hy b hb)
  rw [between, List.filter_append, List.filter_append, List.filter_eq_nil_iff.mpr,
    List.filter_eq_self.mpr, List.filter_eq_nil_iff.mpr, List.nil_append, List.append_nil]
  · simpa using fun b hb _ => hbehind b hb
  · simpa using hinside
  · simpa using fun b hb hle => absurd hle (hbefore b hb)

/-- Of the bytes from `q` up to `y`, more open a group than close one, by no more than the limit. -/
def OpenAt (d : Delimiters) (bytes : List CodeByte) (q y : CodeByte) : Prop :=
  IsOpen d 0 (between bytes q.pos y.pos)

/-- As far as `x`, which comes behind `q`, opening brackets are `excess` more than closing ones, and
groups are open at each byte before. -/
structure StopsAt (d : Delimiters) (bytes : List CodeByte) (q x : CodeByte) (excess : Nat) :
    Prop where
  mem : x ∈ bytes
  behind : q.pos < x.pos
  openings_eq : openings d (between bytes q.pos x.pos) =
    closings d (between bytes q.pos x.pos) + excess
  openAt : ∀ y ∈ bytes, q.pos ≤ y.pos → y.pos < x.pos → OpenAt d bytes q y

/-! ## From the first opening bracket on -/

theorem openings_cons_opening (hq : q.byte = d.opening.toUInt8) (part : List CodeByte) :
    openings d (q :: part) = openings d part + 1 :=
  List.countP_cons_of_pos (by simpa using hq)

section

variable (hd : Distinct d) (hq : q.byte = d.opening.toUInt8)

include hd hq

theorem closings_cons_opening (part : List CodeByte) :
    closings d (q :: part) = closings d part :=
  List.countP_cons_of_neg (by simpa [hq] using hd.closing)

theorem isOpen_cons_opening (part : List CodeByte) :
    IsOpen d 0 (q :: part) ↔ IsOpen d 1 part := by
  rw [IsOpen, IsOpen, openings_cons_opening hq, closings_cons_opening hd hq]
  omega

theorem staysOpen_iff
    (hsorted : (skipped ++ q :: (front ++ rest)).Pairwise fun a b => a.pos < b.pos) :
    StaysOpen d 1 front ↔
      ∀ y ∈ q :: front, OpenAt d (skipped ++ q :: (front ++ rest)) q y := by
  induction front using List.reverseRecOn generalizing rest with
  | nil =>
    have hself : between (skipped ++ q :: rest) q.pos q.pos = [q] :=
      between_eq rfl (List.nil_append [q]).symm hsorted
    rw [List.nil_append, List.forall_mem_singleton, OpenAt, hself, isOpen_cons_opening hd hq]
    simp [StaysOpen]
  | append_singleton front y ih =>
    have hgroup : between (skipped ++ q :: (front ++ [y] ++ rest)) q.pos y.pos =
        q :: (front ++ [y]) :=
      between_eq rfl (List.cons_append ..).symm hsorted
    have hlast : OpenAt d (skipped ++ q :: (front ++ [y] ++ rest)) q y ↔
        IsOpen d 1 (front ++ [y]) := by
      rw [OpenAt, hgroup, isOpen_cons_opening hd hq]
    rw [← List.cons_append, List.forall_mem_append, List.forall_mem_singleton, hlast,
      staysOpen_concat]
    rw [List.append_assoc] at hsorted ⊢
    exact and_congr_left fun _ => ih hsorted

theorem stopsAt_append_iff {excess : Nat}
    (hsorted : (skipped ++ q :: (front ++ x :: rest)).Pairwise fun a b => a.pos < b.pos) :
    StopsAt d (skipped ++ q :: (front ++ x :: rest)) q x excess ↔ LeavesAt d 1 front x excess := by
  have hsplit : skipped ++ q :: (front ++ x :: rest) = skipped ++ q :: front ++ x :: rest := by simp
  have hgroup : between (skipped ++ q :: (front ++ x :: rest)) q.pos x.pos =
      q :: (front ++ [x]) := by
    rw [List.append_cons front] at hsorted ⊢
    exact between_eq rfl (List.cons_append ..).symm hsorted
  have hopen : (∀ y ∈ skipped ++ q :: (front ++ x :: rest), q.pos ≤ y.pos → y.pos < x.pos →
      OpenAt d (skipped ++ q :: (front ++ x :: rest)) q y) ↔ StaysOpen d 1 front := by
    rw [staysOpen_iff hd hq hsorted]
    rw [hsplit] at hsorted ⊢
    refine forall_congr' fun y => ?_
    rw [Code.mem_cons_back_iff (hsorted.sublist (List.sublist_append_left _ _)),
      Code.mem_front_iff hsorted]
    tauto
  have hcount : openings d (between (skipped ++ q :: (front ++ x :: rest)) q.pos x.pos) =
      closings d (between (skipped ++ q :: (front ++ x :: rest)) q.pos x.pos) + excess ↔
      1 + openings d (front ++ [x]) = closings d (front ++ [x]) + excess := by
    rw [hgroup, openings_cons_opening hq, closings_cons_opening hd hq]
    omega
  have hbehind := List.rel_of_pairwise_cons (List.pairwise_append.mp hsorted).2.1
    (List.mem_append_right front List.mem_cons_self)
  constructor
  · exact fun h => ⟨hopen.mp h.openAt, hcount.mp h.openings_eq⟩
  · exact fun h => ⟨by simp, hbehind, hcount.mpr h.openings_eq, hopen.mpr h.staysOpen⟩

theorem stopsAt_iff {excess : Nat}
    (hsorted : (skipped ++ q :: back).Pairwise fun a b => a.pos < b.pos) :
    StopsAt d (skipped ++ q :: back) q x excess ↔
      ∃ front rest, back = front ++ x :: rest ∧ LeavesAt d 1 front x excess := by
  constructor
  · intro h
    have hx : x ∈ q :: back :=
      (Code.mem_cons_back_iff hsorted).mpr ⟨h.mem, Position.le_of_lt h.behind⟩
    rcases List.mem_cons.mp hx with rfl | hx
    · exact absurd h.behind (Position.lt_irrefl _)
    · obtain ⟨front, rest, rfl⟩ := List.append_of_mem hx
      exact ⟨front, rest, rfl, (stopsAt_append_iff hd hq hsorted).mp h⟩
  · rintro ⟨front, rest, rfl, h⟩
    exact (stopsAt_append_iff hd hq hsorted).mpr h

theorem staysOpen_back_iff
    (hsorted : (skipped ++ q :: back).Pairwise fun a b => a.pos < b.pos) :
    StaysOpen d 1 back ↔
      ∀ y ∈ skipped ++ q :: back, q.pos ≤ y.pos → OpenAt d (skipped ++ q :: back) q y := by
  have hstays : StaysOpen d 1 back ↔
      ∀ y ∈ q :: back, OpenAt d (skipped ++ q :: (back ++ [])) q y :=
    staysOpen_iff hd hq (by rwa [List.append_nil])
  rw [hstays, List.append_nil]
  refine forall_congr' fun y => ?_
  rw [Code.mem_cons_back_iff hsorted, and_imp]

end

/-! ## How bytes begin -/

/-- The first opening bracket, with no semicolon in front of it that ends the extent. -/
structure OpensFirst (d : Delimiters) (bytes : List CodeByte) (q : CodeByte) : Prop where
  mem : q ∈ bytes
  opening : q.byte = d.opening.toUInt8
  passed : ∀ y ∈ bytes, y.pos < q.pos → Passed d y

/-- What comes first: an opening bracket, a semicolon that ends the extent, or neither. -/
inductive Begins (d : Delimiters) : List CodeByte → Prop where
  | opens {skipped back : List CodeByte} {q : CodeByte} (hskipped : ∀ b ∈ skipped, Passed d b)
      (hq : q.byte = d.opening.toUInt8) : Begins d (skipped ++ q :: back)
  | ends {skipped back : List CodeByte} {x : CodeByte} (hskipped : ∀ b ∈ skipped, Passed d b)
      (hend : d.endsAtStatement = true) (hx : x.byte = ';'.toUInt8) :
      Begins d (skipped ++ x :: back)
  | passes {bytes : List CodeByte} (hbytes : ∀ b ∈ bytes, Passed d b) : Begins d bytes

theorem begins (d : Delimiters) (bytes : List CodeByte) : Begins d bytes := by
  induction bytes with
  | nil => exact .passes (by simp)
  | cons b rest ih =>
    by_cases hopening : b.byte = d.opening.toUInt8
    · exact .opens (List.forall_mem_nil _) hopening
    by_cases hend : d.endsAtStatement = true ∧ b.byte = ';'.toUInt8
    · exact .ends (List.forall_mem_nil _) hend.1 hend.2
    have hpassed : Passed d b := ⟨hopening, fun h hb => hend ⟨h, hb⟩⟩
    cases ih with
    | opens hskipped hq =>
      exact .opens (List.forall_mem_cons.mpr ⟨hpassed, hskipped⟩) hq
    | ends hskipped hend hx =>
      exact .ends (List.forall_mem_cons.mpr ⟨hpassed, hskipped⟩) hend hx
    | passes hrest => exact .passes (List.forall_mem_cons.mpr ⟨hpassed, hrest⟩)

theorem read_of_passed (h : ∀ b ∈ bytes, Passed d b) : read d 0 bytes = .unclosed := by
  rw [← List.append_nil bytes, read_append_of_passed h, read]

theorem isOpen_one (d : Delimiters) : IsOpen d 1 [] := by
  simp [IsOpen, depthLimit]

theorem OpensFirst.exists_append (h : OpensFirst d bytes q)
    (hsorted : bytes.Pairwise fun a b => a.pos < b.pos) :
    ∃ skipped back, bytes = skipped ++ q :: back ∧ ∀ b ∈ skipped, Passed d b := by
  obtain ⟨skipped, back, rfl⟩ := List.append_of_mem h.mem
  refine ⟨skipped, back, rfl, fun b hb => ?_⟩
  obtain ⟨hmem, hlt⟩ := (Code.mem_front_iff hsorted).mp hb
  exact h.passed b hmem hlt

theorem read_append_of_opening (hskipped : ∀ b ∈ skipped, Passed d b)
    (hq : q.byte = d.opening.toUInt8) : read d 0 (skipped ++ q :: back) = read d 1 back := by
  rw [read_append_of_passed hskipped, read_cons_opening hq]

/-! ## The outcome of a reading -/

/-- A semicolon ends the reading only where neither it nor a group comes before. -/
theorem read_eq_closed_pos_iff (hd : Distinct d)
    (hsorted : bytes.Pairwise fun a b => a.pos < b.pos) (hx : x ∈ bytes)
    (hbyte : x.byte = ';'.toUInt8) :
    read d 0 bytes = .closed x.pos ↔ d.endsAtStatement = true ∧
      ∀ y ∈ bytes, y.pos < x.pos → y.byte ≠ d.opening.toUInt8 ∧ y.byte ≠ ';'.toUInt8 := by
  constructor
  · intro hread
    cases begins d bytes with
    | opens hskipped hq =>
      -- What closes a group is a bracket.
      rw [read_append_of_opening hskipped hq] at hread
      have hends := (read_eq_iff hd.closing (isOpen_one d)).mp hread
      obtain ⟨b, hb, hpos, hclosing⟩ := hends.exists_closing hd.closing
      obtain rfl := Code.eq_of_pos_eq hsorted (by simp [hb]) hx hpos
      exact absurd (hbyte.symm.trans hclosing) hd.statement_closing
    | @ends skipped back b hskipped hend hb =>
      rw [read_append_of_passed hskipped, read_cons_statement hb hd.statement_opening hend] at hread
      obtain rfl := Code.eq_of_pos_eq hsorted (by simp) hx (Reading.closed.inj hread)
      refine ⟨hend, fun y hy hlt => ?_⟩
      have hpassed := hskipped y ((Code.mem_front_iff hsorted).mpr ⟨hy, hlt⟩)
      exact ⟨hpassed.1, hpassed.2 hend⟩
    | passes hbytes =>
      rw [read_of_passed hbytes] at hread
      cases hread
  · rintro ⟨hend, hbefore⟩
    obtain ⟨front, back, rfl⟩ := List.append_of_mem hx
    rw [read_append_of_passed, read_cons_statement hbyte hd.statement_opening hend]
    intro y hy
    obtain ⟨hmem, hlt⟩ := (Code.mem_front_iff hsorted).mp hy
    exact ⟨(hbefore y hmem hlt).1, fun _ => (hbefore y hmem hlt).2⟩

section

variable (hd : Distinct d) (hsorted : bytes.Pairwise fun a b => a.pos < b.pos)
  (hq : OpensFirst d bytes q)

include hd hsorted hq

theorem OpensFirst.read_eq_closed_iff {p : Position} :
    read d 0 bytes = .closed p ↔ ∃ x, StopsAt d bytes q x 0 ∧ x.pos = p := by
  obtain ⟨skipped, back, rfl, hskipped⟩ := hq.exists_append hsorted
  rw [read_append_of_opening hskipped hq.opening, read_eq_iff hd.closing (isOpen_one d)]
  constructor
  · intro hends
    cases hends with
    | closed hleaves => exact ⟨_, (stopsAt_append_iff hd hq.opening hsorted).mpr hleaves, rfl⟩
  · rintro ⟨x, hstops, rfl⟩
    obtain ⟨front, rest, rfl, hleaves⟩ := (stopsAt_iff hd hq.opening hsorted).mp hstops
    exact .closed hleaves

theorem OpensFirst.read_eq_tooDeep_iff {line : Nat} :
    read d 0 bytes = .tooDeep line ↔
      ∃ x, StopsAt d bytes q x (depthLimit + 1) ∧ x.pos.line = line := by
  obtain ⟨skipped, back, rfl, hskipped⟩ := hq.exists_append hsorted
  rw [read_append_of_opening hskipped hq.opening, read_eq_iff hd.closing (isOpen_one d)]
  constructor
  · intro hends
    cases hends with
    | tooDeep hleaves => exact ⟨_, (stopsAt_append_iff hd hq.opening hsorted).mpr hleaves, rfl⟩
  · rintro ⟨x, hstops, rfl⟩
    obtain ⟨front, rest, rfl, hleaves⟩ := (stopsAt_iff hd hq.opening hsorted).mp hstops
    exact .tooDeep hleaves

theorem OpensFirst.read_eq_unclosed_iff :
    read d 0 bytes = .unclosed ↔ ∀ y ∈ bytes, q.pos ≤ y.pos → OpenAt d bytes q y := by
  obtain ⟨skipped, back, rfl, hskipped⟩ := hq.exists_append hsorted
  rw [read_append_of_opening hskipped hq.opening, read_eq_iff hd.closing (isOpen_one d),
    ← staysOpen_back_iff hd hq.opening hsorted]
  constructor
  · intro hends
    cases hends with
    | unclosed hopen => exact hopen
  · exact .unclosed

end

/-! ## Extents -/

/-- What the bytes say about the outcome of an extent that starts at `start`. -/
structure EndsByCount (d : Delimiters) (start : Position) (bytes : List CodeByte)
    (outcome : Except Unbalanced Position) : Prop where
  statement : ∀ x ∈ bytes, x.byte = ';'.toUInt8 →
    (outcome = .ok x.pos ↔ d.endsAtStatement = true ∧
      ∀ y ∈ bytes, y.pos < x.pos → y.byte ≠ d.opening.toUInt8 ∧ y.byte ≠ ';'.toUInt8)
  balanced : ∀ q, OpensFirst d bytes q → ∀ p,
    (outcome = .ok p ↔ ∃ x, StopsAt d bytes q x 0 ∧ x.pos = p)
  unbalanced : ∀ q, OpensFirst d bytes q → ∀ e,
    (outcome = .error e ↔
      (∃ x, StopsAt d bytes q x (depthLimit + 1) ∧ e = ⟨x.pos.line, .tooDeep depthLimit⟩) ∨
        (∀ y ∈ bytes, q.pos ≤ y.pos → OpenAt d bytes q y) ∧
          e = ⟨start.line, .unclosed d.closing⟩)
  passed : (∀ b ∈ bytes, Passed d b) → outcome = .error ⟨start.line, .unclosed d.closing⟩

theorem resolve_eq_ok_iff {code : Code} {start p : Position} :
    resolve code start d = .ok p ↔ read d 0 (code.bytesAt start) = .closed p := by
  unfold resolve
  cases read d 0 (code.bytesAt start) <;> simp

theorem resolve_eq_error_iff {code : Code} {start : Position} {e : Unbalanced} :
    resolve code start d = .error e ↔
      (∃ line, read d 0 (code.bytesAt start) = .tooDeep line ∧ e = ⟨line, .tooDeep depthLimit⟩) ∨
        read d 0 (code.bytesAt start) = .unclosed ∧ e = ⟨start.line, .unclosed d.closing⟩ := by
  unfold resolve
  cases read d 0 (code.bytesAt start) <;> simp [eq_comm]

/-- An extent ends where counting the brackets of the bytes from its start on says. -/
theorem endsByCount_resolve {d : Delimiters} (hd : d ∈ Delimiters.all) (s : Source)
    (start : Position) :
    Code.ReadsFrom s start ((Code.ofSource s).bytesAt start) ∧
      EndsByCount d start ((Code.ofSource s).bytesAt start)
        (resolve (Code.ofSource s) start d) := by
  have hreads := Code.readsFrom_bytesAt s start
  have hdistinct := distinct_of_mem_all hd
  refine ⟨hreads, ?_, ?_, ?_, ?_⟩
  · intro x hx hbyte
    rw [resolve_eq_ok_iff, read_eq_closed_pos_iff hdistinct hreads.sorted hx hbyte]
  · intro q hq p
    rw [resolve_eq_ok_iff, hq.read_eq_closed_iff hdistinct hreads.sorted]
  · intro q hq e
    rw [resolve_eq_error_iff, hq.read_eq_unclosed_iff hdistinct hreads.sorted]
    simp only [hq.read_eq_tooDeep_iff hdistinct hreads.sorted]
    refine or_congr_left ⟨?_, ?_⟩
    · rintro ⟨_, ⟨x, hstops, rfl⟩, he⟩
      exact ⟨x, hstops, he⟩
    · rintro ⟨x, hstops, he⟩
      exact ⟨_, ⟨x, hstops, rfl⟩, he⟩
  · intro hpassed
    exact resolve_eq_error_iff.mpr (.inr ⟨read_of_passed hpassed, rfl⟩)

/-- Brackets in front of the first group, in a literal and in a comment do not count. -/
def elseBranch : Source :=
  Source.ofText "unit.cpp"
    "\x7d else \x7b\n  s = \"\x7d\"; // \x7d\n  \x7b f(); \x7d\n\x7d\n".toList

theorem endsByCount_elseBranch :
    Delimiters.braces ∈ Delimiters.all ∧
      resolve (Code.ofSource elseBranch) ⟨0, 0⟩ .braces = .ok ⟨3, 0⟩ ∧
      Code.ReadsFrom elseBranch ⟨0, 0⟩ ((Code.ofSource elseBranch).bytesAt ⟨0, 0⟩) ∧
      EndsByCount .braces ⟨0, 0⟩ ((Code.ofSource elseBranch).bytesAt ⟨0, 0⟩)
        (resolve (Code.ofSource elseBranch) ⟨0, 0⟩ .braces) :=
  ⟨by decide, by decide +kernel, endsByCount_resolve (by decide) elseBranch ⟨0, 0⟩⟩

end Extent

end ScopeLint
