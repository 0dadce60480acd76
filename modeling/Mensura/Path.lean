/-!
# Paths as text

A path is a row of parts between slashes.  Empty parts and `.` mean nothing; `..` leads one
directory up, so it stays where it is until the files are looked at.
-/

set_option autoImplicit false

namespace Mensura
namespace Path

/-- The parts of a path between slashes. -/
def splitSlashes (part : List Char) : List Char → List (List Char)
  | [] => [part.reverse]
  | c :: rest =>
    if c = '/' then part.reverse :: splitSlashes [] rest else splitSlashes (c :: part) rest

/-- The parts of a path that mean something. -/
def parts (path : String) : List String :=
  ((splitSlashes [] path.toList).filter fun p ↦ p ≠ [] && p ≠ ['.']).map String.ofList

/-- Whether a path starts at the root and not in the working directory. -/
def isAbsolute (path : String) : Bool :=
  path.toList.head? = some '/'

/-- Whether a path cannot name anything: no name holds a null character. -/
def isImpossible (path : String) : Bool :=
  path.toList.contains '\x00'

/-- Whether a path cannot name anything but a directory: it ends in a slash or in `.`. -/
def endsInDirectory (path : String) : Bool :=
  let last := ((splitSlashes [] path.toList).getLast?).getD []
  last = [] || last = ['.']

/-- The slashes that a path in normal form starts with.  Exactly two are kept. -/
def root (path : String) : String :=
  let slashes := (path.toList.takeWhile (· = '/')).length
  if slashes = 0 then "" else if slashes = 2 then "//" else "/"

/-- A path in normal form, without the parts that mean nothing. -/
def normal (path : String) : String :=
  let text := root path ++ "/".intercalate (parts path)
  if text.isEmpty then "." else text

/-- The last part of a path. -/
def baseName (path : String) : String :=
  (parts path).getLast?.getD ""

/-- A path with another suffix in place of that of its last part.  A point at either end of that
part starts no suffix. -/
def replaceSuffix (path suffix : String) : String :=
  let name := (baseName path).toList
  let tail := name.reverse.takeWhile (· ≠ '.')
  let hasSuffix := !tail.isEmpty && tail.length + 1 < name.length
  let dropped := if hasSuffix then tail.length + 1 else 0
  let cs := path.toList
  String.ofList (cs.take (cs.length - dropped)) ++ suffix

end Path
end Mensura
