import ScopeLint.Proofs.Text.Slice

/-!
# Boundaries around a slice

The ends of a slice can be looked for step by step, from the columns asked for to the nearest
boundaries between characters. The search never leaves the line, and what lies between the
boundaries is the slice: no shorter run of whole characters has all the columns.
-/

namespace ScopeLint.Line

variable {line part : Line} {start stop col first behind : Nat}

/-! ## Steps -/

def boundaryFrom? (line : Line) : Nat → Nat → Option Nat
  | 0, _ => none
  | steps + 1, col => if line.isBoundary col then some col else boundaryFrom? line steps (col + 1)

/-- The first boundary from a column on to the left. There is no column left of 0. -/
def boundaryUpTo? (line : Line) : Nat → Option Nat
  | 0 => if line.isBoundary 0 then some 0 else none
  | col + 1 => if line.isBoundary (col + 1) then some (col + 1) else boundaryUpTo? line col

/-- The end is brought into the line and moved to the right, then the start is brought in front of
the end and moved to the left. -/
def walkedSlice? (line : Line) (start stop : Nat) : Option Line := do
  let stop ← boundaryFrom? line (line.size + 1) (min stop line.size)
  let start ← boundaryUpTo? line (min start stop)
  line.cut? start stop

theorem isBoundary_zero (line : Line) : line.isBoundary 0 = true :=
  isBoundary_iff.mpr ⟨[], line, rfl, rfl⟩

theorem isBoundary_last (line : Line) : line.isBoundary line.size = true :=
  isBoundary_iff.mpr ⟨line, [], (List.append_nil line).symm, rfl⟩

theorem exists_boundaryFrom? {steps : Nat} (hcol : col ≤ line.size)
    (hsteps : line.size < col + steps) : ∃ b, boundaryFrom? line steps col = some b ∧
      line.isBoundary b = true ∧ col ≤ b ∧ ∀ n, line.isBoundary n = true → col ≤ n → b ≤ n := by
  induction steps generalizing col with
  | zero => omega
  | succ steps ih =>
    rw [boundaryFrom?]
    split
    · rename_i hb
      exact ⟨col, rfl, hb, Nat.le_refl _, fun _ _ h => h⟩
    · rename_i hb
      have hne : ∀ n, line.isBoundary n = true → col ≠ n := by
        rintro n hn rfl
        exact hb hn
      have hend := hne _ line.isBoundary_last
      obtain ⟨b, hfound, hbound, hle, hleast⟩ := @ih (col + 1) (by omega) (by omega)
      refine ⟨b, hfound, hbound, by omega, fun n hn hle => hleast n hn ?_⟩
      have hcol := hne n hn
      omega

theorem exists_boundaryUpTo? (line : Line) (col : Nat) : ∃ a, boundaryUpTo? line col = some a ∧
    line.isBoundary a = true ∧ a ≤ col ∧ ∀ n, line.isBoundary n = true → n ≤ col → n ≤ a := by
  induction col with
  | zero =>
    rw [boundaryUpTo?, if_pos line.isBoundary_zero]
    exact ⟨0, rfl, line.isBoundary_zero, Nat.le_refl _, fun _ _ h => h⟩
  | succ col ih =>
    rw [boundaryUpTo?]
    split
    · rename_i ha
      exact ⟨col + 1, rfl, ha, Nat.le_refl _, fun _ _ h => h⟩
    · rename_i ha
      obtain ⟨a, hfound, hbound, hle, hlast⟩ := ih
      refine ⟨a, hfound, hbound, by omega, fun n hn hle => hlast n hn ?_⟩
      have hne : n ≠ col + 1 := by
        rintro rfl
        exact ha hn
      omega

/-! ## Boundaries of a slice -/

/-- The last boundary at or in front of the start, and the first one at or behind the end. -/
structure Bounds (line : Line) (start stop first behind : Nat) : Prop where
  first_boundary : line.isBoundary first = true
  behind_boundary : line.isBoundary behind = true
  first_le : first ≤ min start behind
  le_behind : min stop line.size ≤ behind
  le_first : ∀ n, line.isBoundary n = true → n ≤ min start behind → n ≤ first
  behind_le : ∀ n, line.isBoundary n = true → min stop line.size ≤ n → behind ≤ n

theorem exists_bounds (line : Line) (start stop : Nat) :
    ∃ first behind, Bounds line start stop first behind ∧
      walkedSlice? line start stop = line.cut? first behind := by
  obtain ⟨behind, hbehind, hboundary, hle, hleast⟩ :=
    @exists_boundaryFrom? line (min stop line.size) (line.size + 1) (by omega) (by omega)
  obtain ⟨first, hfirst, hboundary', hle', hlast⟩ := line.exists_boundaryUpTo? (min start behind)
  refine ⟨first, behind, ⟨hboundary', hboundary, hle', hle, hlast, hleast⟩, ?_⟩
  simp [walkedSlice?, hbehind, hfirst]

theorem sliceFrom_congr {start' stop' : Nat}
    (h : ∀ front c back, line = front ++ c :: back →
      (col + size front < stop ∧ start < col + size front + c.utf8Size ↔
        col + size front < stop' ∧ start' < col + size front + c.utf8Size)) :
    sliceFrom start stop col line = sliceFrom start' stop' col line := by
  induction line generalizing col with
  | nil => rfl
  | cons c rest ih =>
    have hfirst := h [] c rest rfl
    rw [size, Nat.add_zero] at hfirst
    have hrest : sliceFrom start stop (col + c.utf8Size) rest =
        sliceFrom start' stop' (col + c.utf8Size) rest := by
      refine ih fun front d back hline => ?_
      have hd := h (c :: front) d back (by rw [hline, List.cons_append])
      rwa [size, ← Nat.add_assoc] at hd
    rw [sliceFrom, sliceFrom, hrest]
    simp only [hfirst]

theorem Bounds.slice_eq (h : Bounds line start stop first behind) :
    line.slice start stop = line.slice first behind := by
  refine sliceFrom_congr fun front c back hline => ?_
  have hpos := Char.utf8Size_pos c
  have hfront : line.isBoundary (size front) = true :=
    isBoundary_iff.mpr ⟨front, c :: back, hline, rfl⟩
  have hback : line.isBoundary (size front + c.utf8Size) = true :=
    isBoundary_iff.mpr ⟨front ++ [c], back, by rw [hline, List.append_cons], by simp [size]⟩
  have hsize : size front + c.utf8Size ≤ line.size := by
    rw [hline, size_append, size]
    omega
  -- The end does not stand inside of the character.
  have hwhole : size front < behind → size front + c.utf8Size ≤ behind := by
    obtain ⟨front', back', heq, rfl⟩ := isBoundary_iff.mp h.behind_boundary
    exact size_add_utf8Size_le (hline.symm.trans heq)
  have hfirst := h.first_le
  have hbehind := h.le_behind
  have hlast := h.le_first _ hback
  have hleast := h.behind_le _ hfront
  omega

/-- Wherever the ends are: the search comes to boundaries, and they are in order. -/
theorem walkedSlice?_eq (line : Line) (start stop : Nat) :
    walkedSlice? line start stop = some (line.slice start stop) := by
  obtain ⟨first, behind, h, hwalk⟩ := line.exists_bounds start stop
  have hle := h.first_le
  rw [hwalk, h.slice_eq, cut?, if_pos ⟨by omega, h.first_boundary, h.behind_boundary⟩]

/-! ## Least runs of characters -/

/-- `mid` is a run of whole characters with all columns from `start` to before `stop`. -/
structure Covers (line : Line) (start stop : Nat) (front mid back : Line) : Prop where
  eq_append : line = front ++ mid ++ back
  size_front_le : size front ≤ start
  le_size : stop ≤ size front + size mid

/-- Such a run that lies inside every other one. -/
def IsLeastRun (line : Line) (start stop : Nat) (part : Line) : Prop :=
  ∃ front back, Covers line start stop front part back ∧
    ∀ front' mid back', Covers line start stop front' mid back' →
      ∃ before behind, front = front' ++ before ∧ mid = before ++ part ++ behind

theorem Bounds.isLeastRun (h : Bounds line start stop first behind)
    (hcols : start < min stop line.size) :
    IsLeastRun line start (min stop line.size) (line.slice start stop) := by
  rw [h.slice_eq]
  have hle := h.first_le
  have hstop := h.le_behind
  obtain ⟨front, rest, hfront, rfl⟩ := isBoundary_iff.mp h.first_boundary
  obtain ⟨whole, back, hwhole, rfl⟩ := isBoundary_iff.mp h.behind_boundary
  obtain ⟨mid, rfl, rfl⟩ := exists_between (hfront.symm.trans hwhole) (by omega)
  have hslice : line.slice (size front) (size (front ++ mid)) = mid := by
    rw [hwhole, size_append, slice_append]
  rw [hslice]
  refine ⟨front, back, ⟨hwhole, by omega, by rwa [← size_append]⟩, ?_⟩
  rintro front' mid' back' ⟨hline, hfront', hmid'⟩
  have hline' : line = front' ++ (mid' ++ back') := by rw [hline, List.append_assoc]
  -- Both ends of the other run are boundaries, so that they are not inside this one.
  have hfirst : size front' ≤ size front :=
    h.le_first _ (isBoundary_iff.mpr ⟨front', _, hline', rfl⟩) (by omega)
  have hbehind : size (front ++ mid) ≤ size (front' ++ mid') :=
    h.behind_le _ (isBoundary_iff.mpr ⟨_, back', hline, rfl⟩) (by rwa [size_append])
  obtain ⟨before, rfl, hbefore⟩ := exists_between (hline'.symm.trans hfront) hfirst
  rw [← List.append_assoc] at hbefore
  obtain ⟨behind, rfl, -⟩ := exists_between hbefore.symm (by simp at hbehind ⊢; omega)
  exact ⟨before, behind, rfl, rfl⟩

theorem isLeastRun_slice (line : Line) (h : start < min stop line.size) :
    IsLeastRun line start (min stop line.size) (line.slice start stop) := by
  obtain ⟨first, behind, hbounds, -⟩ := line.exists_bounds start stop
  exact hbounds.isLeastRun h

end ScopeLint.Line
