import ScopeLint.Batch
import ScopeLint.Proofs.UnitMap

/-!
# What comes in does not depend on when

What has been gathered is a fact about the set of units that have come in, as long as no two of
them share a name.
-/

namespace ScopeLint.Batch

/-- What has come in is what the units `done` give, each looked at alone. -/
structure Gathered.Of (g : Gathered) (done : List Source) : Prop where
  sorted : g.outlines.Sorted
  get?_iff : ∀ name o, g.outlines.get? name = some o ↔
    ∃ u ∈ done, u.name = name ∧ Outline.ofSource u = .ok o
  failed_eq : g.failed = done.countP fun u => !(Outline.ofSource u).isOk

namespace Gathered.Of

variable {g other : Gathered} {done units : List Source} {u : Source}

theorem start : Gathered.start.Of [] where
  sorted := UnitMap.sorted_empty
  get?_iff name o := by
    constructor
    · intro h
      cases h
    · rintro ⟨u, hu, -⟩
      simp at hu
  failed_eq := rfl

theorem add (h : g.Of done) (hu : u.name ∉ done.map Source.name) : (g.add u).Of (u :: done) := by
  unfold Gathered.add
  cases hresult : Outline.ofSource u with
  | ok outline =>
    refine ⟨h.sorted.insert _ _, ?_, ?_⟩
    · intro name o
      by_cases hname : name = u.name
      · subst hname
        rw [UnitMap.get?_insert_self]
        constructor
        · intro ho
          exact ⟨u, List.mem_cons_self, rfl, by rw [hresult, Option.some.inj ho]⟩
        · rintro ⟨v, hv, hvname, hvresult⟩
          rcases List.mem_cons.mp hv with rfl | hv
          · rw [hresult] at hvresult
            rw [Except.ok.inj hvresult]
          · exact absurd (List.mem_map.mpr ⟨v, hv, hvname⟩) hu
      · rw [UnitMap.get?_insert_of_ne _ hname, h.get?_iff]
        constructor
        · rintro ⟨v, hv, hrest⟩
          exact ⟨v, List.mem_cons_of_mem _ hv, hrest⟩
        · rintro ⟨v, hv, hvname, hvresult⟩
          rcases List.mem_cons.mp hv with rfl | hv
          · exact absurd hvname.symm hname
          · exact ⟨v, hv, hvname, hvresult⟩
    · rw [List.countP_cons_of_neg (by rw [hresult]; simp [Except.isOk, Except.toBool])]
      exact h.failed_eq
  | error e =>
    refine ⟨h.sorted, ?_, ?_⟩
    · intro name o
      rw [h.get?_iff]
      constructor
      · rintro ⟨v, hv, hrest⟩
        exact ⟨v, List.mem_cons_of_mem _ hv, hrest⟩
      · rintro ⟨v, hv, hvname, hvresult⟩
        rcases List.mem_cons.mp hv with rfl | hv
        · rw [hresult] at hvresult
          simp at hvresult
        · exact ⟨v, hv, hvname, hvresult⟩
    · rw [List.countP_cons_of_pos (by rw [hresult]; rfl), ← h.failed_eq]

theorem perm (h : g.Of done) (hperm : done.Perm units) : g.Of units where
  sorted := h.sorted
  get?_iff name o := by simp only [h.get?_iff, hperm.mem_iff]
  failed_eq := by rw [h.failed_eq, hperm.countP_eq]

theorem unique (h : g.Of done) (k : other.Of done) : g = other := by
  have houtlines : g.outlines = other.outlines := by
    refine h.sorted.ext k.sorted fun name => ?_
    apply Option.ext
    intro o
    rw [h.get?_iff, k.get?_iff]
  have hfailed : g.failed = other.failed := by rw [h.failed_eq, k.failed_eq]
  cases g
  cases other
  simp only at houtlines hfailed
  rw [houtlines, hfailed]

end Gathered.Of

theorem foldl_add_of {g : Gathered} {done units : List Source} (h : g.Of done)
    (hnames : ((done ++ units).map Source.name).Nodup) :
    (units.foldl Gathered.add g).Of (done ++ units) := by
  induction units generalizing g done with
  | nil =>
    rw [List.append_nil]
    exact h
  | cons u rest ih =>
    have hmiddle : (u :: done ++ rest).Perm (done ++ u :: rest) := List.perm_middle.symm
    have hu : (u :: done ++ rest).map Source.name |>.Nodup :=
      (hmiddle.map Source.name).nodup_iff.mpr hnames
    have hfresh : u.name ∉ done.map Source.name := by
      rw [List.cons_append, List.map_cons, List.nodup_cons, List.map_append] at hu
      exact fun hmem => hu.1 (List.mem_append_left _ hmem)
    exact (ih (h.add hfresh) hu).perm hmiddle

theorem gather_of {units : List Source} (hnames : (units.map Source.name).Nodup) :
    (gather units).Of units :=
  foldl_add_of .start hnames

end ScopeLint.Batch
