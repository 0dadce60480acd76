import Mensura.Path

/-!
# Places

Where a path leads, seen from the working directory or from the root.  Paths that lead to the same
place are one `Place`: `..` takes back the name before it, and stands only in front of all names,
where it leads out of the working directory.
-/

set_option autoImplicit false

namespace Mensura

/-- The names on the way to a place, the last one first. -/
structure Place where
  absolute : Bool := false
  names : List String := []
  deriving DecidableEq, Repr

namespace Place

/-- The part that leads one directory up. -/
def upward : String := ".."

/-- The directory above a place.  The root is above itself. -/
def up (p : Place) : Place :=
  match p.names with
  | [] => if p.absolute then p else { p with names := [upward] }
  | name :: rest => { p with names := if name = upward then upward :: name :: rest else rest }

/-- The place that one part of a path leads to. -/
def step (p : Place) (part : String) : Place :=
  if part = upward then p.up else { p with names := part :: p.names }

/-- The place that a path starts from. -/
def start (path : String) : Place :=
  { absolute := Path.isAbsolute path }

/-- The place that a path comes down to, wherever there is something on the way or not. -/
def ofPath (path : String) : Place :=
  (Path.parts path).foldl step (start path)

/-- The shortest path to a place. -/
def path (p : Place) : String :=
  let body := "/".intercalate p.names.reverse
  if p.absolute then "/" ++ body else if body.isEmpty then "." else body

/-- Whether the place is the working directory, the root, or above the working directory. -/
def isAbove (p : Place) : Bool :=
  p.names.all (· = upward)

/-- Whether the place lies in the working directory. -/
def isInside (p : Place) : Bool :=
  !p.absolute && p.names.getLast? ≠ some upward

/-- The rests of a list behind each of its members. -/
def behindEach : List String → List (List String)
  | [] => []
  | _ :: rest => rest :: behindEach rest

/-- The directories on the way to a place, the nearest first. -/
def ancestors (p : Place) : List Place :=
  (behindEach p.names).map fun names ↦ { p with names }

end Place
end Mensura
