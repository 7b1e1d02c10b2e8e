import Mathlib.Logic.Relation
import ScopeLint.Proofs.Batch.Deal
import ScopeLint.Proofs.Batch.Gather
import ScopeLint.Session

/-!
# Schedules do not matter

Workers scan the units of their chunks and hand the results in, each at its own pace. Whatever order
the steps of the workers come in, a finished run leaves what looking at each unit alone gives.
-/

namespace ScopeLint

namespace Batch

/-! ## Workers -/

structure Scanned where
  unit : Source
  result : Except Unbalanced Outline
  result_eq : result = Outline.ofSource unit

def Scanned.of (u : Source) : Scanned := ⟨u, Outline.ofSource u, rfl⟩

def Gathered.take (g : Gathered) (r : Scanned) : Gathered :=
  match r.result with
  | .ok outline => { g with outlines := g.outlines.insert r.unit.name outline }
  | .error _ => { g with failed := g.failed + 1 }

theorem Gathered.take_eq (g : Gathered) (r : Scanned) : g.take r = g.add r.unit := by
  obtain ⟨u, result, rfl⟩ := r
  rfl

/-- A chunk in work: the result that is to be handed in next, and the units not yet scanned. -/
structure Task where
  held : Option Scanned
  waiting : List Source

namespace Task

def pending (t : Task) : List Source :=
  match t.held with
  | none => t.waiting
  | some r => r.unit :: t.waiting

end Task

structure Pool where
  tasks : List Task
  gathered : Gathered

namespace Pool

def start (dealt : List (List Source)) : Pool := ⟨dealt.map fun chunk => ⟨none, chunk⟩, .start⟩

def pending (p : Pool) : List Source := p.tasks.flatMap Task.pending

/-- How many steps are still to be taken: two for each unit that waits, one for each result at
hand. -/
def work (p : Pool) : Nat :=
  2 * (p.tasks.flatMap (·.waiting)).length + p.tasks.countP (·.held.isSome)

def Finished (p : Pool) : Prop := p.pending = []

theorem pending_start (dealt : List (List Source)) : (start dealt).pending = dealt.flatten := by
  unfold pending start
  rw [List.flatMap_map]
  exact List.flatMap_id

end Pool

/-! ## Steps -/

/-- One worker goes on while the others rest: it scans its next unit, or hands a result in. -/
inductive Step : Pool → Pool → Prop where
  | scan (front back : List Task) (u : Source) (rest : List Source) (g : Gathered) :
    Step ⟨front ++ ⟨none, u :: rest⟩ :: back, g⟩ ⟨front ++ ⟨some (.of u), rest⟩ :: back, g⟩
  | handIn (front back : List Task) (r : Scanned) (rest : List Source) (g : Gathered) :
    Step ⟨front ++ ⟨some r, rest⟩ :: back, g⟩ ⟨front ++ ⟨none, rest⟩ :: back, g.take r⟩

abbrev Run : Pool → Pool → Prop := Relation.ReflTransGen Step

theorem Step.work_eq {p q : Pool} (h : Step p q) : p.work = q.work + 1 := by
  cases h with
  | scan front back u rest g =>
    simp only [Pool.work, List.flatMap_append, List.flatMap_cons, List.length_append,
      List.countP_append, List.countP_cons, List.length_cons, Option.isSome_none,
      Option.isSome_some, Bool.false_eq_true, if_false, if_true]
    omega
  | handIn front back r rest g =>
    simp only [Pool.work, List.flatMap_append, List.flatMap_cons, List.length_append,
      List.countP_append, List.countP_cons, Option.isSome_none, Option.isSome_some,
      Bool.false_eq_true, if_false, if_true]
    omega

/-- As long as a result is missing, some worker can go on. -/
theorem exists_step {p : Pool} (h : ¬p.Finished) : ∃ q, Step p q := by
  obtain ⟨u, hu⟩ := List.exists_mem_of_ne_nil _ h
  obtain ⟨t, ht, hut⟩ := List.mem_flatMap.mp hu
  obtain ⟨tasks, g⟩ := p
  obtain ⟨front, back, rfl⟩ := List.append_of_mem ht
  obtain ⟨held, waiting⟩ := t
  cases held with
  | some r => exact ⟨_, .handIn front back r waiting g⟩
  | none =>
    cases waiting with
    | nil => cases hut
    | cons u rest => exact ⟨_, .scan front back u rest g⟩

theorem wellFounded_step : WellFounded fun q p => Step p q := by
  refine Subrelation.wf ?_ (measure Pool.work).wf
  intro q p hstep
  have hwork := hstep.work_eq
  show q.work < p.work
  omega

theorem exists_run_finished (p : Pool) : ∃ q, Run p q ∧ q.Finished := by
  induction p using wellFounded_step.induction with
  | _ p ih =>
    by_cases h : p.Finished
    · exact ⟨p, .refl, h⟩
    · obtain ⟨q, hstep⟩ := exists_step h
      obtain ⟨r, hrun, hfinished⟩ := ih q hstep
      exact ⟨r, .head hstep hrun, hfinished⟩

/-! ## What steps preserve -/

/-- Each of the units has come in or is pending, and what has come in is what those units give. -/
def Accounts (units : List Source) (p : Pool) : Prop :=
  ∃ done, p.gathered.Of done ∧ (done ++ p.pending).Perm units

theorem accounts_start {units : List Source} {dealt : List (List Source)}
    (h : dealt.flatten.Perm units) : Accounts units (.start dealt) := by
  refine ⟨[], .start, ?_⟩
  rw [List.nil_append, Pool.pending_start]
  exact h

theorem Step.accounts {units : List Source} {p q : Pool}
    (hnames : (units.map Source.name).Nodup) (hstep : Step p q) (h : Accounts units p) :
    Accounts units q := by
  obtain ⟨done, hdone, hperm⟩ := h
  cases hstep with
  | scan front back u rest g =>
    -- A scanned unit is as pending as before.
    refine ⟨done, hdone, ?_⟩
    simp only [Pool.pending, List.flatMap_append, List.flatMap_cons, Task.pending] at hperm ⊢
    exact hperm
  | handIn front back r rest g =>
    have hmove : (done ++ (front.flatMap Task.pending ++
        (r.unit :: rest ++ back.flatMap Task.pending))).Perm
        (r.unit :: done ++ (front.flatMap Task.pending ++
          (rest ++ back.flatMap Task.pending))) := by
      rw [List.cons_append, ← List.append_assoc, List.cons_append, ← List.append_assoc]
      exact List.perm_middle
    simp only [Pool.pending, List.flatMap_append, List.flatMap_cons, Task.pending] at hperm
    have hunits := hmove.symm.trans hperm
    have hfresh : r.unit.name ∉ done.map Source.name := by
      have hnodup := ((hunits.map Source.name).nodup_iff.mpr hnames)
      rw [List.cons_append, List.map_cons, List.nodup_cons, List.map_append] at hnodup
      exact fun hmem => hnodup.1 (List.mem_append_left _ hmem)
    refine ⟨r.unit :: done, ?_, ?_⟩
    · rw [Gathered.take_eq]
      exact hdone.add hfresh
    · simp only [Pool.pending, List.flatMap_append, List.flatMap_cons, Task.pending]
      exact hunits

theorem Run.accounts {units : List Source} {p q : Pool}
    (hnames : (units.map Source.name).Nodup) (hrun : Run p q) (h : Accounts units p) :
    Accounts units q := by
  induction hrun with
  | refl => exact h
  | tail _ hstep ih => exact hstep.accounts hnames ih

theorem Run.gathered_of {units : List Source} {dealt : List (List Source)} {p : Pool}
    (hnames : (units.map Source.name).Nodup) (hdealt : dealt.flatten.Perm units)
    (hrun : Run (.start dealt) p) (hfinished : p.Finished) : p.gathered.Of units := by
  obtain ⟨done, hdone, hperm⟩ := Run.accounts hnames hrun (accounts_start hdealt)
  rw [hfinished, List.append_nil] at hperm
  exact hdone.perm hperm

end Batch

/-! ## Sessions -/

namespace Session

def finish (s : Session) (g : Batch.Gathered) : Session × Tally :=
  ({ s with outlines := g.outlines }, ⟨s.units.length + s.unreadable, g.failed + s.unreadable⟩)

theorem outlineAll_eq_finish (s : Session) (cores : Nat) :
    s.outlineAll cores = s.finish (Batch.gather s.units) := by
  unfold outlineAll outlineAs finish
  rw [Batch.flatten_chunks]

/-- What a session is to have after its units were looked at, each of them alone. -/
structure IsOutlined (s : Session) (result : Session × Tally) : Prop where
  outlines : ∀ name o, result.1.outlines.get? name = some o ↔
    ∃ u ∈ s.units, u.name = name ∧ Outline.ofSource u = .ok o
  others : { result.1 with outlines := s.outlines } = s
  failed : result.2.failed =
    s.units.countP (fun u => !(Outline.ofSource u).isOk) + s.unreadable
  attempted : result.2.attempted = s.units.length + s.unreadable
  failed_le : result.2.failed ≤ result.2.attempted

theorem isOutlined_finish {s : Session} {g : Batch.Gathered} (h : g.Of s.units) :
    s.IsOutlined (s.finish g) where
  outlines := h.get?_iff
  others := rfl
  failed := by rw [finish, h.failed_eq]
  attempted := rfl
  failed_le := by
    have hle := List.countP_le_length (p := fun u => !(Outline.ofSource u).isOk) (l := s.units)
    unfold finish
    rw [h.failed_eq]
    exact Nat.add_le_add_right hle _

/-- However the units are shuffled and whatever steps the workers take, every unit is in one chunk,
no run gets stuck, and all finished runs leave the session the same. -/
theorem outlineAll_of_schedule (s : Session) (cores : Nat) {shuffled : List Source}
    (hnames : (s.units.map Source.name).Nodup) (hshuffled : shuffled.Perm s.units) :
    Batch.IsDeal (s.settings.workerCount cores) s.units
        (Batch.chunks (s.settings.workerCount cores) shuffled) ∧
      ∀ p, Batch.Run (.start (Batch.chunks (s.settings.workerCount cores) shuffled)) p →
        (∃ q, Batch.Run p q ∧ q.Finished) ∧
          (p.Finished → s.finish p.gathered = s.outlineAll cores ∧
            s.IsOutlined (s.finish p.gathered)) := by
  have hworkers : 0 < s.settings.workerCount cores := by
    rw [Settings.workerCount]
    omega
  have hdeal := Batch.isDeal_chunks hworkers (List.Nodup.of_map _ hnames) hshuffled
  refine ⟨hdeal, fun p hrun => ⟨Batch.exists_run_finished p, fun hfinished => ?_⟩⟩
  have hgathered := Batch.Run.gathered_of hnames hdeal.perm hrun hfinished
  refine ⟨?_, isOutlined_finish hgathered⟩
  rw [outlineAll_eq_finish, hgathered.unique (Batch.gather_of hnames)]

def twoUnits : Session :=
  { start { Settings.standard with workers := some 2 } with
    units := [⟨"open.cpp", ["void f() \x7b".toList]⟩, ⟨"fine.cpp", ["int n;".toList]⟩]
    unreadable := 1 }

theorem outlineAll_twoUnits :
    (twoUnits.units.map Source.name).Nodup ∧ twoUnits.units.reverse.Perm twoUnits.units ∧
      Batch.IsDeal 2 twoUnits.units (Batch.chunks 2 twoUnits.units.reverse) ∧
        ∀ p, Batch.Run (.start (Batch.chunks 2 twoUnits.units.reverse)) p →
          (∃ q, Batch.Run p q ∧ q.Finished) ∧
            (p.Finished → twoUnits.finish p.gathered = twoUnits.outlineAll 8 ∧
              twoUnits.IsOutlined (twoUnits.finish p.gathered)) := by
  have hnames : (twoUnits.units.map Source.name).Nodup := by decide
  have hshuffled := twoUnits.units.reverse_perm
  exact ⟨hnames, hshuffled, outlineAll_of_schedule twoUnits 8 hnames hshuffled⟩

end Session

end ScopeLint
