import Mensura.Command
import Std.Time.Zoned

/-!
# The program

The command line on real files.  What the arguments can name is read before the command begins,
and the files that it has changed are written when it is done.  While watching, the source is read
again after each interval, and another content counts as a change.
-/

set_option autoImplicit false

namespace Mensura
namespace Program

open Command

/-- The time of day, as log records are stamped with it. -/
def timeOfDay : IO String := do
  let now ← Std.Time.PlainTime.now
  let two (n : Int) := (if n < 10 then "0" else "") ++ toString n
  return two now.hour.val ++ ":" ++ two now.minute.val ++ ":" ++ two now.second.val

/-- The paths that an argument can name: all of it, what stands behind its `=`, and what stands
behind its letter, each as it is and cut down. -/
def pathsIn (arg : String) : List String :=
  let cs := arg.toList
  let named := [arg, String.ofList ((cs.dropWhile (· ≠ '=')).drop 1), String.ofList (cs.drop 2)]
  named ++ named.map fun path ↦ (Place.ofPath path).path

/-- The content of a file, if it can be read. -/
def content? (path : String) : IO (Option (List UInt8)) := do
  try return some (← IO.FS.readBinFile path).toList
  catch _ => return none

/-- Whether there is a directory at a path: only a directory has an entry for itself. -/
def isDirectory (path : String) : IO Bool := do
  try
    discard <| IO.FS.Handle.mk (path ++ "/.") .read
    return true
  catch _ => return false

/-- The beginnings of a path that end with a part of it. -/
def beginnings (path : String) : List String :=
  let parts := Path.parts path
  (List.range parts.length).map fun i ↦
    Path.root path ++ "/".intercalate (parts.take (i + 1))

/-- The files together with what there is on the way to a path and at its end. -/
def gather (fs : Files) (path : String) : IO Files := do
  let found ← (beginnings path).filterM isDirectory
  let fs := { fs with directories := found.map Place.ofPath ++ fs.directories }
  match ← content? (Path.normal path) with
  | some bytes =>
    return { fs with contents := (Place.ofPath path, bytes) :: fs.contents }
  | none => return fs

/-- Writes the files that are not what they were, and prints what was said.  Answers the session
with nothing left to say. -/
def settle (before : Files) (s : Session) : IO Session := do
  for (place, bytes) in s.files.contents do
    if before.contentAt? place ≠ some bytes then
      IO.FS.writeBinFile place.path ⟨bytes.toArray⟩
  IO.print s.output
  (← IO.getStdout).flush
  IO.eprint s.errors
  return { s with output := "", errors := "" }

/-- Watches until a trouble ends it. -/
partial def watch (setup : Setup) (last : List UInt8) (s : Session) : IO Trouble := do
  match setup.settings.pollInterval.seconds with
  | .error f => return .fault f
  | .ok seconds => IO.sleep (seconds * 1000).ceil.toUInt32
  let now ← content? setup.source
  let s := s.edited [(setup.source, now)]
  let (after, last, trouble) := lookAgain setup last now { s with stamp := ← timeOfDay }
  let s ← settle s.files after
  match trouble with
  | some t => return t
  | none => watch setup last s

/-- The exit status, with a word about what went wrong. -/
def close : Exit → IO UInt32
  | .status n => do
    if n = misuse then IO.eprintln usage
    return n.toUInt32
  | .crash t => do
    IO.eprintln t.message
    return 1

/-- Runs the command line. -/
def run (args : List String) : IO UInt32 := do
  let paths := Settings.defaultFile :: args.flatMap pathsIn
  let files ← paths.foldlM gather { contents := [] }
  let (s, progress) := begin args { files, stamp := ← timeOfDay }
  let s ← settle files s
  match progress with
  | .ended e => close e
  | .watching setup =>
    let first := (s.files.read setup.source).toOption.getD []
    close (.crash (← watch setup first s))

end Program
end Mensura

/-- The program. -/
def main (args : List String) : IO UInt32 :=
  Mensura.Program.run args
