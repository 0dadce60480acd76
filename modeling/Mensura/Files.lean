import Mensura.Files.Place
import Mensura.Text.Quoted
import Mensura.Text.Utf8

/-!
# Files

The files a command works on: contents by place.  A path leads to a place only if there is a
directory at every step of the way (`locate`).  A directory exists as soon as something has been
put into it.
-/

set_option autoImplicit false

namespace Mensura

/-- Contents by place, and the directories that exist besides the working directory, the root and
those above. -/
structure Files where
  contents : List (Place × List UInt8)
  directories : List Place := []

namespace Files

/-- Why a file cannot be read or written. -/
inductive Fault
  | missing | isDirectory | notDirectory | nameTooLong
  /-- A null character, which no path may hold. -/
  | nullCharacter
  deriving DecidableEq, Repr

/-- The wording of a fault at a path. -/
def Fault.message (path : String) : Fault → String
  | .missing => "[Errno 2] No such file or directory: " ++ Text.quoted path
  | .isDirectory => "[Errno 21] Is a directory: " ++ Text.quoted path
  | .notDirectory => "[Errno 20] Not a directory: " ++ Text.quoted path
  | .nameTooLong => "[Errno 36] File name too long: " ++ Text.quoted path
  | .nullCharacter => "embedded null byte"

/-- The most bytes of a name, and of a whole path. -/
def longestName : Nat := 255
def longestPath : Nat := 4095

/-! ## Places -/

/-- The content of the file at a place. -/
def contentAt? (fs : Files) (p : Place) : Option (List UInt8) :=
  fs.contents.lookup p

/-- Whether there is a directory at a place. -/
def isDirectoryAt (fs : Files) (p : Place) : Bool :=
  p.isAbove || fs.directories.contains p

/-- The files with a content put at a place. -/
def putAt (fs : Files) (p : Place) (content : List UInt8) : Files :=
  { contents := fs.contents.filter (·.1 ≠ p) ++ [(p, content)]
    directories := (p.ancestors.filter (!fs.isDirectoryAt ·)) ++ fs.directories }

/-- The files without the one at a place. -/
def removeAt (fs : Files) (p : Place) : Files :=
  { fs with contents := fs.contents.filter (·.1 ≠ p) }

/-! ## Paths -/

/-- Follows the parts of a path from a place on. -/
def follow (fs : Files) (p : Place) : List String → Except Fault Place
  | [] => .ok p
  | part :: rest =>
    if (fs.contentAt? p).isSome then .error .notDirectory
    else if !fs.isDirectoryAt p then .error .missing
    else if longestName < part.utf8ByteSize then .error .nameTooLong
    else follow fs (p.step part) rest

/-- The place that a path leads to. -/
def locate (fs : Files) (path : String) : Except Fault Place :=
  if Path.isImpossible path then .error .nullCharacter
  else if longestPath < path.utf8ByteSize then .error .nameTooLong
  else fs.follow (Place.start path) (Path.parts path)

/-- The content of the file that a path leads to. -/
def read (fs : Files) (path : String) : Except Fault (List UInt8) := do
  let p ← fs.locate path
  if fs.isDirectoryAt p then throw .isDirectory
  else
    match fs.contentAt? p with
    | some content => return content
    | none => throw .missing

/-- Whether a path names a file. -/
def isFile (fs : Files) (path : String) : Bool :=
  !Path.endsInDirectory path && (fs.read path).toOption.isSome

/-- Whether a path names a directory.  The empty path names nothing. -/
def isDirectory (fs : Files) (path : String) : Bool :=
  !path.isEmpty && (fs.locate path).toOption.any fs.isDirectoryAt

/-- Writes a file.  The directory it lies in has to exist. -/
def write (fs : Files) (path : String) (content : List UInt8) : Except Fault Files := do
  let p ← fs.locate path
  if fs.isDirectoryAt p then throw .isDirectory else return fs.putAt p content

end Files
end Mensura
