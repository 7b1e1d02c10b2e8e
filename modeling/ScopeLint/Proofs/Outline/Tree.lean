import Mathlib.Data.List.Nodup
import ScopeLint.Outline

/-!
# Outlines are trees

Where parents and children answer each other and every parent ranks below its children, each scope
hangs below the root exactly once: walks down list it once, and walks up from it end at the root.
-/

namespace ScopeLint.Outline

def climb (o : Outline) : Nat → ScopeId → Option ScopeId
  | 0, id => some id
  | steps + 1, id => (o.get id).parent.bind (o.climb steps)

/-- Parents and children answer each other, and parents have the lesser rank. -/
structure IsTree (o : Outline) (rank : ScopeId → Nat) : Prop where
  size_pos : 0 < o.scopes.size
  parent_root : (o.get root).parent = none
  exists_parent : ∀ id < o.scopes.size, id ≠ root → ∃ parent, (o.get id).parent = some parent
  mem_children_iff : ∀ parent id, id ∈ (o.get parent).children ↔
    id < o.scopes.size ∧ (o.get id).parent = some parent
  nodup_children : ∀ id, (o.get id).children.Nodup
  parent_lt : ∀ {id parent : ScopeId}, (o.get id).parent = some parent → parent < o.scopes.size
  rank_parent : ∀ {id parent : ScopeId}, (o.get id).parent = some parent → rank parent < rank id
  rank_lt : ∀ id < o.scopes.size, rank id < o.scopes.size

variable {o : Outline} {rank : ScopeId → Nat}

/-! ## Climbing -/

theorem climb_add (o : Outline) (m n : Nat) (id : ScopeId) :
    o.climb (m + n) id = (o.climb m id).bind (o.climb n) := by
  induction m generalizing id with
  | zero => rw [Nat.zero_add, climb, Option.bind_some]
  | succ m ih =>
    rw [Nat.succ_add, climb, climb, Option.bind_assoc]
    congr 1
    funext parent
    exact ih parent

theorem climb_one (o : Outline) (id : ScopeId) : o.climb 1 id = (o.get id).parent := by
  rw [climb]
  cases (o.get id).parent <;> rfl

namespace IsTree

/-- Every step up lowers the rank. -/
theorem rank_climb (h : o.IsTree rank) {steps : Nat} {id top : ScopeId}
    (hclimb : o.climb steps id = some top) : rank top + steps ≤ rank id := by
  induction steps generalizing id with
  | zero =>
    obtain rfl : id = top := Option.some.inj hclimb
    exact Nat.le_refl _
  | succ steps ih =>
    rw [climb, Option.bind_eq_some_iff] at hclimb
    obtain ⟨parent, hparent, hclimb⟩ := hclimb
    have hrank := h.rank_parent hparent
    have hrest := ih hclimb
    omega

theorem exists_climb_root (h : o.IsTree rank) {id : ScopeId} (hid : id < o.scopes.size) :
    ∃ steps, o.climb steps id = some root := by
  induction hrank : rank id using Nat.strongRecOn generalizing id with
  | ind n ih =>
    by_cases hroot : id = root
    · exact ⟨0, by rw [climb, hroot]⟩
    · obtain ⟨parent, hparent⟩ := h.exists_parent id hid hroot
      have hlt := h.rank_parent hparent
      obtain ⟨steps, hsteps⟩ := ih (rank parent) (by omega) (h.parent_lt hparent) rfl
      exact ⟨steps + 1, by rw [climb, hparent, Option.bind_some, hsteps]⟩

theorem sibling_eq (h : o.IsTree rank) {id parent a b : ScopeId} {m n : Nat}
    (ha : (o.get a).parent = some parent) (hb : (o.get b).parent = some parent)
    (hm : o.climb m id = some a) (hn : o.climb n id = some b) : a = b := by
  -- Were one of them above the other, it would be above the common parent, and below it in rank.
  have hle : ∀ {c d : ScopeId} {i j : Nat}, (o.get c).parent = some parent →
      (o.get d).parent = some parent → o.climb i id = some c → o.climb j id = some d →
      i ≤ j → c = d := by
    intro c d i j hc hd hi hj hij
    obtain ⟨k, rfl⟩ := Nat.exists_eq_add_of_le hij
    rw [climb_add, hi, Option.bind_some] at hj
    cases k with
    | zero => exact Option.some.inj hj
    | succ k =>
      rw [climb, hc, Option.bind_some] at hj
      have habove := h.rank_climb hj
      have hbelow := h.rank_parent hd
      omega
  rcases Nat.le_total m n with hmn | hmn
  · exact hle ha hb hm hn hmn
  · exact (hle hb ha hn hm hmn).symm

/-! ## Walking up -/

theorem above_root (h : o.IsTree rank) (height : Nat) : o.above height root = [] := by
  cases height with
  | zero => rfl
  | succ height => rw [above, h.parent_root]

theorem getLast?_above (h : o.IsTree rank) {steps height : Nat} {id : ScopeId}
    (hclimb : o.climb (steps + 1) id = some root) (hheight : steps < height) :
    (o.above height id).getLast? = some root := by
  induction steps generalizing height id with
  | zero =>
    obtain ⟨height, rfl⟩ := Nat.exists_eq_succ_of_ne_zero (Nat.ne_of_gt hheight)
    rw [climb_one] at hclimb
    rw [above, hclimb]
    simp only [h.above_root, List.getLast?_singleton]
  | succ steps ih =>
    obtain ⟨height, rfl⟩ := Nat.exists_eq_succ_of_ne_zero (Nat.ne_of_gt (Nat.zero_lt_of_lt hheight))
    rw [climb, Option.bind_eq_some_iff] at hclimb
    obtain ⟨parent, hparent, hclimb⟩ := hclimb
    have hlast := ih hclimb (Nat.lt_of_succ_lt_succ hheight)
    rw [above, hparent]
    simp only [List.getLast?_cons, hlast, Option.getD_some]

theorem getLast?_ancestors (h : o.IsTree rank) {id : ScopeId} (hid : id < o.scopes.size)
    (hroot : id ≠ root) : (o.ancestors id).getLast? = some root := by
  obtain ⟨steps, hsteps⟩ := h.exists_climb_root hid
  cases steps with
  | zero => exact absurd (Option.some.inj hsteps) hroot
  | succ steps =>
    have hrank := h.rank_climb hsteps
    have hbound := h.rank_lt id hid
    exact h.getLast?_above hsteps (by omega)

/-! ## Walking down -/

theorem mem_below_iff (h : o.IsTree rank) {depth : Nat} {id top : ScopeId} :
    id ∈ o.below depth top ↔
      id < o.scopes.size ∧ ∃ steps < depth, o.climb (steps + 1) id = some top := by
  induction depth generalizing top with
  | zero => simp [below]
  | succ depth ih =>
    rw [below, List.mem_flatMap]
    constructor
    · rintro ⟨child, hchild, hid⟩
      obtain ⟨hlt, hparent⟩ := (h.mem_children_iff top child).mp hchild
      rcases List.mem_cons.mp hid with rfl | hid
      · exact ⟨hlt, 0, Nat.succ_pos _, by rw [climb_one, hparent]⟩
      · obtain ⟨hlt, steps, hsteps, hclimb⟩ := ih.mp hid
        refine ⟨hlt, steps + 1, by omega, ?_⟩
        rw [climb_add, hclimb, Option.bind_some, climb_one, hparent]
    · rintro ⟨hlt, steps, hsteps, hclimb⟩
      rw [climb_add, Option.bind_eq_some_iff] at hclimb
      obtain ⟨child, hchild, hparent⟩ := hclimb
      rw [climb_one] at hparent
      cases steps with
      | zero =>
        obtain rfl := Option.some.inj hchild
        exact ⟨id, (h.mem_children_iff top id).mpr ⟨hlt, hparent⟩, List.mem_cons_self⟩
      | succ steps =>
        have hbelow := ih.mpr ⟨hlt, steps, by omega, hchild⟩
        have hchildLt : child < o.scopes.size := by
          rw [climb_add, Option.bind_eq_some_iff] at hchild
          obtain ⟨grandchild, -, hup⟩ := hchild
          rw [climb_one] at hup
          exact h.parent_lt hup
        exact ⟨child, (h.mem_children_iff top child).mpr ⟨hchildLt, hparent⟩,
          List.mem_cons_of_mem _ hbelow⟩

theorem nodup_below (h : o.IsTree rank) (depth : Nat) (top : ScopeId) :
    (o.below depth top).Nodup := by
  induction depth generalizing top with
  | zero => exact List.nodup_nil
  | succ depth ih =>
    rw [below, List.nodup_flatMap]
    constructor
    · intro child _
      refine List.nodup_cons.mpr ⟨?_, ih child⟩
      intro hself
      obtain ⟨-, steps, -, hclimb⟩ := h.mem_below_iff.mp hself
      have hrank := h.rank_climb hclimb
      omega
    · have hclimb : ∀ child id, id ∈ child :: o.below depth child →
          ∃ steps, o.climb steps id = some child := by
        intro child id hid
        rcases List.mem_cons.mp hid with rfl | hid
        · exact ⟨0, rfl⟩
        · obtain ⟨-, steps, -, hsteps⟩ := h.mem_below_iff.mp hid
          exact ⟨steps + 1, hsteps⟩
      refine List.Pairwise.imp_of_mem ?_ (h.nodup_children top)
      intro a b ha hb hne id hida hidb
      obtain ⟨m, hm⟩ := hclimb a id hida
      obtain ⟨n, hn⟩ := hclimb b id hidb
      have hparentA := ((h.mem_children_iff top a).mp ha).2
      have hparentB := ((h.mem_children_iff top b).mp hb).2
      exact hne (h.sibling_eq hparentA hparentB hm hn)

/-! ## The whole tree -/

theorem nodup_descendants (h : o.IsTree rank) (id : ScopeId) : (o.descendants id).Nodup :=
  h.nodup_below _ id

theorem mem_descendants_root_iff (h : o.IsTree rank) {id : ScopeId} :
    id ∈ o.descendants root ↔ id ≠ root ∧ id < o.scopes.size := by
  unfold descendants
  rw [h.mem_below_iff]
  constructor
  · rintro ⟨hlt, steps, -, hclimb⟩
    refine ⟨?_, hlt⟩
    rintro rfl
    rw [climb, h.parent_root] at hclimb
    simp at hclimb
  · rintro ⟨hne, hlt⟩
    obtain ⟨steps, hsteps⟩ := h.exists_climb_root hlt
    cases steps with
    | zero => exact absurd (Option.some.inj hsteps) hne
    | succ steps =>
      have hrank := h.rank_climb hsteps
      have hbound := h.rank_lt id hlt
      exact ⟨hlt, steps, by omega, hsteps⟩

theorem perm_descendants_root (h : o.IsTree rank) :
    (o.descendants root).Perm (List.range' 1 (o.scopes.size - 1)) := by
  refine (List.perm_ext_iff_of_nodup (h.nodup_descendants root) List.nodup_range').mpr ?_
  intro id
  have hpos := h.size_pos
  have hsize : 1 + (o.scopes.size - 1) = o.scopes.size := by omega
  rw [h.mem_descendants_root_iff, List.mem_range'_1, hsize]
  exact and_congr_left fun _ => Nat.pos_iff_ne_zero.symm

theorem size_eq (h : o.IsTree rank) : o.scopes.size = (o.descendants root).length + 1 := by
  have hpos := h.size_pos
  have hlength := h.perm_descendants_root.length_eq
  rw [List.length_range'] at hlength
  omega

theorem count_children (h : o.IsTree rank) {id parent : ScopeId}
    (hparent : (o.get id).parent = some parent) (hid : id < o.scopes.size) (other : ScopeId) :
    (o.get other).children.count id = if other = parent then 1 else 0 := by
  split
  · rename_i heq
    rw [heq]
    exact List.count_eq_one_of_mem (h.nodup_children parent)
      ((h.mem_children_iff parent id).mpr ⟨hid, hparent⟩)
  · rename_i hne
    rw [List.count_eq_zero]
    intro hmem
    have hother := ((h.mem_children_iff other id).mp hmem).2
    rw [hparent] at hother
    exact hne (Option.some.inj hother).symm

end IsTree

end ScopeLint.Outline
