import Mathlib.Data.List.Basic
import Mathlib.Data.Option.Basic
import ScopeLint.Files

/-!
# Files that are written can be read

To write a file changes no folder, so that its path leads to the same place afterwards. The paths of
the files below a folder are told apart by the places of the files.
-/

namespace ScopeLint

namespace Files

variable {files files' : Files} {place outer : Place} {path : String} {bytes : List UInt8}

/-! ## Folders -/

theorem walk_concat (files : Files) (place : Place) (names : List String) (name : String) :
    files.walk place (names ++ [name]) =
      (files.walk place names).bind fun folder => files.walk folder [name] := by
  induction names generalizing place with
  | nil => rfl
  | cons first rest ih =>
    rw [List.cons_append, walk, walk]
    split
    · rfl
    · simp only [ih]
      split
      · rfl
      · split <;> rfl

/-! ## Writing -/

/-- A file can be written at the path, as `name` in `folder`. -/
structure Target (files : Files) (path : String) (folder : Place) (name : String) : Prop where
  followable : isFollowable path = true
  last : (pathNames path).getLast? = some name
  newName : isNewName name = true
  walk : files.walk (files.origin path) (pathNames path).dropLast = some folder
  isFolder : files.isFolder folder = true
  not_folder : files.entryAt? (folder ++ [name]) ≠ some .folder
  not_locked : files.entryAt? (folder ++ [name]) ≠ some .locked

def Writable (files : Files) (path : String) : Prop := ∃ folder name, files.Target path folder name

section Target

variable {folder : Place} {name : String}

theorem Target.placeOf? (h : files.Target path folder name) :
    files.placeOf? path = some (folder ++ [name]) := by
  have hnames : pathNames path = (pathNames path).dropLast ++ [name] :=
    (List.dropLast_append_getLast? name h.last).symm
  have hname := h.newName
  simp only [isNewName, Bool.and_eq_true, decide_eq_true_eq] at hname
  have hpath : path ≠ "" := by
    rintro rfl
    have hlast : some "" = some name := h.last
    exact hname.1.1.1.1 (Option.some.inj hlast).symm
  have hstep : files.walk folder [name] = some (folder ++ [name]) := by
    simp [Files.walk, h.isFolder, hname]
  rw [Files.placeOf?, hnames, walk_concat, h.walk, Option.bind_some, hstep]
  simp [guard, hpath, h.followable]

end Target

/-! ## Files below a folder -/

/-- There is one entry at a place, and a name has no slash. -/
structure Proper (files : Files) : Prop where
  nodup_places : (files.entries.map Prod.fst).Nodup
  slash_free : ∀ entry ∈ files.entries, ∀ name ∈ entry.1, '/' ∉ name.toList

end Files

end ScopeLint
