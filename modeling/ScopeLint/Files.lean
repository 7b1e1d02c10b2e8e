import ScopeLint.Sort
import ScopeLint.Text.Blank

/-!
# Files

The files and folders that a run can see, and where a path leads among them. This is all that is
kept of a file system: no links, dates or permissions, but files that cannot be read.
-/

namespace ScopeLint

/-- What stands at a place: a file with its bytes, a file that cannot be read, or a folder. -/
inductive Entry where
  | file (bytes : List UInt8)
  | locked
  | folder
  deriving DecidableEq, Repr

/-- The names on the way from the top to a place. -/
abbrev Place := List String

/-- The entries by place, and the working folder. The folders on the way to an entry are there
without an entry of their own. -/
structure Files where
  here : Place
  entries : List (Place × Entry)
  deriving DecidableEq, Repr

namespace Files

/-! ## Places -/

/-- What follows `outer` on the way to a place inside it. -/
def relative? : Place → Place → Option Place
  | [], place => some place
  | _ :: _, [] => none
  | a :: outer, b :: place => if a = b then relative? outer place else none

/-- Whether `place` is below `outer`. -/
def isBelow (place outer : Place) : Bool :=
  match relative? outer place with
  | some (_ :: _) => true
  | _ => false

def isFolder (files : Files) (place : Place) : Bool :=
  place.isEmpty || files.entries.any fun (p, e) =>
    isBelow p place || (p == place && e == .folder)

def entryAt? (files : Files) (place : Place) : Option Entry :=
  if files.isFolder place then some .folder else files.entries.lookup place

/-! ## Paths -/

/-- The names in a path, with an empty one at each end that is a slash. -/
def pathNames (path : String) : List String :=
  (splitAt (· == '/') path.toList).map String.ofList

/-- The folder that a path starts from. -/
def origin (files : Files) (path : String) : Place :=
  match path.toList with
  | '/' :: _ => []
  | _ => files.here

/-- The place that names lead to; only a folder has names inside. -/
def walk (files : Files) : Place → List String → Option Place
  | place, [] => some place
  | place, name :: rest =>
    if ¬files.isFolder place then none
    else if name = "" ∨ name = "." then files.walk place rest
    else if name = ".." then files.walk place.dropLast rest
    else files.walk (place ++ [name]) rest

/-- Whether a path is short enough to be followed. -/
def isFollowable (path : String) : Bool := path.utf8ByteSize < 4096

/-- The place of a path; an empty path has none. -/
def placeOf? (files : Files) (path : String) : Option Place := do
  guard (path ≠ "" ∧ isFollowable path)
  files.walk (files.origin path) (pathNames path)

/-- What stands at a path. -/
def at? (files : Files) (path : String) : Option Entry :=
  (files.placeOf? path).bind files.entryAt?

/-- The bytes of the file at a path. -/
def read? (files : Files) (path : String) : Option (List UInt8) :=
  match files.at? path with
  | some (.file bytes) => some bytes
  | _ => none

/-- The path of what lies below a folder, given the path of the folder. -/
def joinPath (path : String) (inner : Place) : String :=
  let bridge := if path.toList.getLast? == some '/' then "" else "/"
  path ++ bridge ++ "/".intercalate inner

/-- Whether one place comes before another or is the same, when each folder is listed by name and
what is in it follows it. -/
def placeLe (a b : Place × Entry) : Bool := (List.compareLex compare a.1 b.1).isLE

/-- The files below a folder, as places inside it. -/
def filesBelow (files : Files) (place : Place) : List (Place × Entry) :=
  sortBy placeLe (files.entries.filterMap fun (p, e) =>
    match relative? place p, e with
    | some (name :: inner), .file bytes => some (name :: inner, .file bytes)
    | some (name :: inner), .locked => some (name :: inner, .locked)
    | _, _ => none)

/-- The extension of a file name: what follows its last point, unless that is its first
character. -/
def extension? (name : String) : Option String :=
  match (splitAt (· == '.') name.toList).reverse with
  | [] | [_] => none
  | [_, []] => none
  | last :: _ => some (String.ofList last)

/-! ## Writing -/

/-- Whether a new file can have this name. -/
def isNewName (name : String) : Bool :=
  name ≠ "" && name ≠ "." && name ≠ ".." && name.utf8ByteSize < 256 &&
    !name.toList.contains '\x00'

/-- The files with these bytes at a path: in a folder that is there, and not where a folder or a
locked file is. -/
def write? (files : Files) (path : String) (bytes : List UInt8) : Option Files := do
  guard (isFollowable path)
  let names := pathNames path
  let name ← names.getLast?
  guard (isNewName name)
  let folder ← files.walk (files.origin path) names.dropLast
  guard (files.isFolder folder)
  let place := folder ++ [name]
  match files.entryAt? place with
  | some .folder | some .locked => none
  | _ => return { files with
      entries := files.entries.filter (·.1 ≠ place) ++ [(place, .file bytes)] }

end Files

end ScopeLint
