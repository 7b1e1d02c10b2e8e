/-!
# Maps by unit

What is known of each unit, in the order of the names of the units.
-/

namespace ScopeLint

structure UnitMap (α : Type) where
  entries : List (String × α)
  deriving DecidableEq, Repr, Inhabited

namespace UnitMap

variable {α β : Type}

instance : EmptyCollection (UnitMap α) := ⟨⟨[]⟩⟩

def insertInto (name : String) (value : α) : List (String × α) → List (String × α)
  | [] => [(name, value)]
  | (n, v) :: rest =>
    if name < n then (name, value) :: (n, v) :: rest
    else if name = n then (name, value) :: rest
    else (n, v) :: insertInto name value rest

/-- The map with `value` for the unit, in place of any other value for it. -/
def insert (m : UnitMap α) (name : String) (value : α) : UnitMap α :=
  ⟨insertInto name value m.entries⟩

def get? (m : UnitMap α) (name : String) : Option α := m.entries.lookup name

def map (f : α → β) (m : UnitMap α) : UnitMap β :=
  ⟨m.entries.map fun (name, value) => (name, f value)⟩

/-! ## Looking up -/

theorem lookup_insertInto_self (name : String) (value : α) (entries : List (String × α)) :
    (insertInto name value entries).lookup name = some value := by
  fun_induction insertInto name value entries with
  | case1 => simp
  | case2 => simp
  | case3 => simp
  | case4 n v rest _ hne ih =>
    have h : (name == n) = false := by simpa using hne
    rw [List.lookup_cons, h]
    exact ih

theorem lookup_insertInto_of_ne {name other : String} (h : other ≠ name) (value : α)
    (entries : List (String × α)) :
    (insertInto name value entries).lookup other = entries.lookup other := by
  have k : (other == name) = false := by simpa using h
  fun_induction insertInto name value entries with
  | case1 => rw [List.lookup_cons, k]
  | case2 => rw [List.lookup_cons, k]
  | case3 => rw [List.lookup_cons, List.lookup_cons, k]
  | case4 n v rest _ _ ih => rw [List.lookup_cons, List.lookup_cons, ih]

@[simp] theorem get?_insert_self (m : UnitMap α) (name : String) (value : α) :
    (m.insert name value).get? name = some value := lookup_insertInto_self name value m.entries

theorem get?_insert_of_ne (m : UnitMap α) {name other : String} (h : other ≠ name) (value : α) :
    (m.insert name value).get? other = m.get? other :=
  lookup_insertInto_of_ne h value m.entries

end UnitMap

end ScopeLint
