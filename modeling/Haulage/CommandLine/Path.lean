/-
Module: Haulage.CommandLine.Path
Purpose: Paths to files and folders, and the places that they lead to.
Main exports: Path, Path.ofText, Path.folder, Place
-/

namespace Haulage

namespace CommandLine

/-! ### Paths -/

/-- A path to a file or a folder. -/
structure Path where
  /-- Whether the path starts at the top of all folders, and not where the program runs. -/
  isAbsolute : Bool
  /-- What stands between the slashes: names, a dot for the same folder, two for the one around. -/
  parts : List String
  /-- Whether a slash ends the path, which then leads to a folder. -/
  endsWithSlash : Bool
deriving DecidableEq, Repr, Inhabited

namespace Path

/-- The path that a text describes. -/
def ofText (s : String) : Path :=
  ⟨s.startsWith "/", (s.splitOn "/").filter fun part => !part.isEmpty, s.endsWith "/"⟩

/-- The text of a path without a slash at its end. -/
def text (path : Path) : String :=
  (if path.isAbsolute then "/" else "") ++ String.intercalate "/" path.parts

/-- The path to the folder around a file, with no part for the same folder. -/
def folder (path : Path) : Path :=
  ⟨path.isAbsolute, (path.parts.filter (· ≠ ".")).dropLast, false⟩

/-- The first parts of a path. -/
def upTo (path : Path) (n : Nat) : Path := ⟨path.isAbsolute, path.parts.take n, false⟩

/-- The name at the end of a path, unless its last part leads to a folder without naming it. -/
def name? (path : Path) : Option String :=
  path.parts.getLast?.filter fun part => part ≠ "." && part ≠ ".."

end Path

/-! ### Places

The folder in which the program runs lies somewhere below the top.  How deep and under which name
is not known, so the folders around it are counted and have no names. -/

/-- A folder from which the way to a place is told. -/
inductive Origin where
  /-- The top of all folders. -/
  | top
  /-- The folder some levels above the one in which the program runs. -/
  | above (levels : Nat)
deriving DecidableEq, Repr, Inhabited

/-- Where a file or a folder is: the names on the way to it. -/
structure Place where
  origin : Origin
  way : List String
deriving DecidableEq, Repr, Inhabited

namespace Place

/-- The folder in which a path starts. -/
def start (path : Path) : Place := ⟨if path.isAbsolute then .top else .above 0, []⟩

/-- The place with a name in a folder. -/
def inner (folder : Place) (name : String) : Place := ⟨folder.origin, folder.way ++ [name]⟩

/-- The folder around a place.  The top is around itself. -/
def outer (place : Place) : Place :=
  if place.way.isEmpty then
    match place.origin with
    | .top => place
    | .above levels => ⟨.above (levels + 1), []⟩
  else ⟨place.origin, place.way.dropLast⟩

@[simp] theorem outer_inner (folder : Place) (name : String) :
    (folder.inner name).outer = folder := by
  simp [inner, outer]

end Place

end CommandLine

end Haulage
