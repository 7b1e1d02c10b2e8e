import ScopeLint.Proofs.Outline.OfSorted

/-!
# Walks through outlines

The walk down lists what the recursion over the children lists, and what a stack of scopes to go
through yields. It meets a scope exactly where the walk up from that scope ends, so that both count
the same levels.
-/

namespace ScopeLint.Outline

/-- What is listed until the stack is empty, if the scope at its end is always the next one and its
children take its place, the first of them last. -/
inductive Unwinds (o : Outline) : List ScopeId → List ScopeId → Prop
  | done : o.Unwinds [] []
  | take {stack listed : List ScopeId} {id : ScopeId}
    (rest : o.Unwinds (stack ++ (o.get id).children.reverse) listed) :
    o.Unwinds (stack ++ [id]) (id :: listed)

variable {o : Outline} {rank : ScopeId → Nat} {id parent : ScopeId}

theorem Unwinds.unique {stack listed other : List ScopeId} (h : o.Unwinds stack listed)
    (hother : o.Unwinds stack other) : listed = other := by
  induction h generalizing other with
  | done =>
    generalize hstack : ([] : List ScopeId) = stack at hother
    cases hother with
    | done => rfl
    | take rest => simp at hstack
  | @take stack listed id rest ih =>
    generalize hstack : stack ++ [id] = whole at hother
    cases hother with
    | done => simp at hstack
    | take rest' =>
      obtain ⟨rfl, hid⟩ := List.append_inj' hstack rfl
      obtain rfl := List.singleton_inj.mp hid
      rw [ih rest']

theorem lt_size_of_parent (h : (o.get id).parent = some parent) : id < o.scopes.size := by
  refine Nat.lt_of_not_le fun hle => ?_
  rw [get, Array.getElem?_eq_none hle] at h
  cases h

theorem mem_above_iff {height : Nat} {top : ScopeId} :
    top ∈ o.above height id ↔ ∃ steps < height, o.climb (steps + 1) id = some top := by
  induction height generalizing id with
  | zero => simp [above]
  | succ height ih =>
    rw [above]
    cases hparent : (o.get id).parent with
    | none => simp [climb, hparent]
    | some parent =>
      rw [List.mem_cons, ih]
      constructor
      · rintro (rfl | ⟨steps, hsteps, hclimb⟩)
        · exact ⟨0, Nat.succ_pos _, by rw [climb_one, hparent]⟩
        · exact ⟨steps + 1, Nat.succ_lt_succ hsteps, by rw [climb, hparent, Option.bind_some, hclimb]⟩
      · rintro ⟨steps, hsteps, hclimb⟩
        rw [climb, hparent, Option.bind_some] at hclimb
        cases steps with
        | zero => exact .inl (Option.some.inj hclimb).symm
        | succ steps => exact .inr ⟨steps, Nat.lt_of_succ_lt_succ hsteps, hclimb⟩

namespace IsTree

theorem rank_of_mem_children (h : o.IsTree rank) {child : ScopeId}
    (hchild : child ∈ (o.get id).children) :
    rank id < rank child ∧ rank child < o.scopes.size := by
  obtain ⟨hlt, hparent⟩ := (h.mem_children_iff id child).mp hchild
  exact ⟨h.rank_parent hparent, h.rank_lt child hlt⟩

/-- What holds of a scope whenever it holds of its children holds of all scopes. -/
theorem induction_children (h : o.IsTree rank) {P : ScopeId → Prop}
    (step : ∀ id, (∀ child ∈ (o.get id).children, P child) → P id) (id : ScopeId) : P id := by
  induction hheight : o.scopes.size - rank id using Nat.strongRecOn generalizing id with
  | ind height ih =>
    refine step id fun child hchild => ?_
    have hrank := h.rank_of_mem_children hchild
    exact ih (o.scopes.size - rank child) (by omega) child rfl

/-! ## Enough levels -/

theorem below_succ_eq (h : o.IsTree rank) {levels : Nat} (id : ScopeId)
    (hlevels : o.scopes.size ≤ rank id + levels + 1) :
    o.below (levels + 1) id = o.below levels id := by
  induction levels generalizing id with
  | zero =>
    have hnone : (o.get id).children = [] := by
      refine List.eq_nil_iff_forall_not_mem.mpr fun child hmem => ?_
      have hrank := h.rank_of_mem_children hmem
      omega
    show (o.get id).children.flatMap _ = []
    rw [hnone, List.flatMap_nil]
  | succ levels ih =>
    rw [below, below]
    refine List.flatMap_congr fun child hmem => ?_
    have hrank := h.rank_of_mem_children hmem
    rw [ih child (by omega)]

theorem above_succ_eq (h : o.IsTree rank) {levels : Nat} {id : ScopeId} (hlevels : rank id ≤ levels) :
    o.above (levels + 1) id = o.above levels id := by
  induction levels generalizing id with
  | zero =>
    rw [above, above]
    cases hparent : (o.get id).parent with
    | none => rfl
    | some parent =>
      have hrank := h.rank_parent hparent
      omega
  | succ levels ih =>
    rw [above, above]
    cases hparent : (o.get id).parent with
    | none => rfl
    | some parent =>
      have hrank := h.rank_parent hparent
      show parent :: o.above (levels + 1) parent = parent :: o.above levels parent
      rw [ih (by omega)]

/-! ## Walking down -/

theorem descendants_eq (h : o.IsTree rank) (id : ScopeId) : o.descendants id =
    (o.get id).children.flatMap fun child => child :: o.descendants child := by
  have hmore : o.below (o.scopes.size + 1) id = o.below o.scopes.size id :=
    h.below_succ_eq id (by omega)
  rw [descendants, ← hmore, below]
  rfl

theorem mem_descendants_iff (h : o.IsTree rank) {n : ScopeId} :
    n ∈ o.descendants id ↔ id ∈ o.ancestors n := by
  rw [descendants, h.mem_below_iff, ancestors, mem_above_iff]
  refine and_iff_right_of_imp ?_
  rintro ⟨steps, -, hclimb⟩
  rw [climb, Option.bind_eq_some_iff] at hclimb
  obtain ⟨parent, hparent, -⟩ := hclimb
  exact lt_size_of_parent hparent

/-- From a stack, each scope on it is listed with what is below it, the last one first. -/
theorem unwinds_append (h : o.IsTree rank) (ids : List ScopeId) {stack listed : List ScopeId}
    (hrest : o.Unwinds stack listed) : o.Unwinds (stack ++ ids.reverse)
      ((ids.flatMap fun id => id :: o.descendants id) ++ listed) := by
  have hone : ∀ id {stack listed}, o.Unwinds stack listed →
      o.Unwinds (stack ++ [id]) ((id :: o.descendants id) ++ listed) := by
    intro id
    induction id using h.induction_children with
    | step id ih =>
      intro stack listed hrest
      refine .take ?_
      rw [h.descendants_eq id]
      generalize (o.get id).children = children at ih
      induction children generalizing stack listed with
      | nil => simpa using hrest
      | cons child children ihs =>
        have hothers := ihs hrest fun c hc => ih c (List.mem_cons_of_mem _ hc)
        have hchild := ih child List.mem_cons_self hothers
        simpa using hchild
  induction ids generalizing stack listed with
  | nil => simpa using hrest
  | cons id ids ih => simpa using hone id (ih hrest)

theorem unwinds_iff (h : o.IsTree rank) {listed : List ScopeId} :
    o.Unwinds (o.get id).children.reverse listed ↔ listed = o.descendants id := by
  have hwalk := h.unwinds_append (o.get id).children .done
  rw [List.nil_append, List.append_nil, ← h.descendants_eq] at hwalk
  exact ⟨fun hlisted => hlisted.unique hwalk, fun hlisted => hlisted ▸ hwalk⟩

/-! ## Levels -/

theorem ancestors_eq (h : o.IsTree rank) (hparent : (o.get id).parent = some parent) :
    o.ancestors id = parent :: o.ancestors parent := by
  have hrank := h.rank_lt id (lt_size_of_parent hparent)
  rw [ancestors, ← h.above_succ_eq (Nat.le_of_lt hrank), above, hparent]
  rfl

theorem depth_eq (h : o.IsTree rank) (hparent : (o.get id).parent = some parent) :
    o.depth id = o.depth parent + 1 := by
  rw [depth, h.ancestors_eq hparent, List.length_cons, depth]

theorem depth_of_mem_children (h : o.IsTree rank) {child : ScopeId}
    (hchild : child ∈ (o.get id).children) : o.depth child = o.depth id + 1 :=
  h.depth_eq ((h.mem_children_iff id child).mp hchild).2

theorem depth_lt_of_mem_descendants (h : o.IsTree rank) {n : ScopeId}
    (hn : n ∈ o.descendants id) : o.depth id < o.depth n := by
  induction id using h.induction_children with
  | step id ih =>
    rw [h.descendants_eq, List.mem_flatMap] at hn
    obtain ⟨child, hchild, hn⟩ := hn
    have hdepth := h.depth_of_mem_children hchild
    rcases List.mem_cons.mp hn with rfl | hn
    · omega
    · have hbelow := ih child hchild hn
      omega

theorem filter_depth_descendants (h : o.IsTree rank) (id : ScopeId) :
    (o.descendants id).filter (fun n => decide (o.depth n = o.depth id + 1)) =
      (o.get id).children := by
  rw [h.descendants_eq, List.filter_flatMap]
  have hone : ∀ child ∈ (o.get id).children,
      (child :: o.descendants child).filter (fun n => decide (o.depth n = o.depth id + 1)) =
        [child] := by
    intro child hchild
    have hdepth := h.depth_of_mem_children hchild
    rw [List.filter_cons, if_pos (decide_eq_true hdepth), List.filter_eq_nil_iff.mpr]
    intro n hn hlevel
    have hbelow := h.depth_lt_of_mem_descendants hn
    have hlevel := of_decide_eq_true hlevel
    omega
  rw [List.flatMap_congr hone, List.flatMap_singleton']

end IsTree

/-! ## Outlines of regions -/

/-- How the walks down and up an outline go together. -/
structure WalksAgree (o : Outline) : Prop where
  descendants_eq : ∀ id, o.descendants id =
    (o.get id).children.flatMap fun child => child :: o.descendants child
  unwinds_iff : ∀ id listed,
    o.Unwinds (o.get id).children.reverse listed ↔ listed = o.descendants id
  nodup : ∀ id, (o.descendants id).Nodup
  mem_iff : ∀ id n, n ∈ o.descendants id ↔ id ∈ o.ancestors n
  depth_child : ∀ id parent, (o.get id).parent = some parent → o.depth id = o.depth parent + 1
  mem_union : ∀ id kinds others n, n ∈ o.descendantsOf id (kinds ∪ others) ↔
    n ∈ o.descendantsOf id kinds ∨ n ∈ o.descendantsOf id others
  childrenOf_eq : ∀ id kinds, o.childrenOf id kinds =
    (o.descendantsOf id kinds).filter fun n => decide (o.depth n = o.depth id + 1)

theorem IsTree.walksAgree (h : o.IsTree rank) : o.WalksAgree where
  descendants_eq := h.descendants_eq
  unwinds_iff _ _ := h.unwinds_iff
  nodup := h.nodup_descendants
  mem_iff _ _ := h.mem_descendants_iff
  depth_child _ _ := h.depth_eq
  mem_union id kinds others n := by
    simp only [descendantsOf, List.mem_filter, Kind.isOf, KindSet.meets_union, Bool.or_eq_true,
      and_or_left]
  childrenOf_eq id kinds := by
    rw [childrenOf, descendantsOf, List.filter_comm, h.filter_depth_descendants]

/-- In the outline of any regions, whatever they are: the walks down and up agree. -/
theorem walksAgree_ofRegions (s : Source) (inert : Inert) (regions : List Region) :
    (ofRegions s inert regions).WalksAgree :=
  (isTree_ofSorted s inert _).walksAgree

end ScopeLint.Outline
