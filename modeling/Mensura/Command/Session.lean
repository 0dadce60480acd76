import Mensura.Files
import Mensura.Settings
import Mensura.Text.Control

/-!
# Sessions

What a command has done: the files as they are now, and what it has written on either output.
What it says to its user is free of control sequences.  Log records at the session's level or
above are written as they are, also to the log file.
-/

set_option autoImplicit false

namespace Mensura
namespace Command

/-- What happens to files between two looks: each gets a new content, or is deleted. -/
abbrev Edit := List (String × Option (List UInt8))

/-- The files after an edit. -/
def Edit.apply (e : Edit) (fs : Files) : Files :=
  e.foldl (fun fs (path, content) ↦
    match content with
    | some bytes => fs.putAt (Place.ofPath path) bytes
    | none => fs.removeAt (Place.ofPath path)) fs

/-- Whether an edit deletes the file at a place. -/
def Edit.deletes (e : Edit) (p : Place) : Bool :=
  e.any fun (path, content) ↦ content.isNone && Place.ofPath path = p

/-- The state of a running command. -/
structure Session where
  files : Files
  /-- The time that log records are stamped with. -/
  stamp : String
  output : String := ""
  errors : String := ""
  level : LogLevel := .info
  /-- The place of the log file, and the number of bytes written to it so far. -/
  logFile : Option (Place × Nat) := none

namespace Session

/-- A line on standard output, as it is. -/
def writeLine (s : Session) (line : String) : Session :=
  { s with output := s.output ++ line ++ "\n" }

/-- A line for the user on standard output. -/
def say (s : Session) (line : String) : Session :=
  s.writeLine (Text.withoutControls line)

/-- A line for the user on standard error. -/
def complain (s : Session) (line : String) : Session :=
  { s with errors := s.errors ++ Text.withoutControls line ++ "\n" }

/-- A log record as a line. -/
def recordLine (s : Session) (logger : String) (level : LogLevel) (message : String) : String :=
  s.stamp ++ " - " ++ logger ++ " - " ++ level.name ++ " - " ++ message

/-- A content with bytes written over it from a position on.  Zeros fill a gap before them. -/
def overwrite (content : List UInt8) (position : Nat) (bytes : List UInt8) : List UInt8 :=
  content.take position ++ List.replicate (position - content.length) 0 ++ bytes ++
    content.drop (position + bytes.length)

/-- A line in the log file, behind the lines before it, whatever else has been written there. -/
def appendToLog (s : Session) (line : String) : Session :=
  match s.logFile with
  | none => s
  | some (place, position) =>
    let content := (s.files.contentAt? place).getD []
    let bytes := Text.encode (line ++ "\n")
    { s with
      files := s.files.putAt place (overwrite content position bytes)
      logFile := some (place, position + bytes.length) }

/-- A log record. -/
def log (s : Session) (logger : String) (level : LogLevel) (message : String) : Session :=
  if s.level.rank ≤ level.rank then
    let line := s.recordLine logger level message
    (s.writeLine line).appendToLog line
  else s

/-- The loggers of the parts that log. -/
def rootLogger : String := "dimcalc"
def statementLogger : String := "dimcalc.statement"
def commandLogger : String := "dimcalc.cli"

/-- Sets the level of logging. -/
def setLevel (s : Session) (level : LogLevel) : Session :=
  Session.log { s with level := level } rootLogger .debug
    ("dimcalc logging set to " ++ level.name)

/-- Starts logging, with an empty log file if there is to be one.  Its path is cut down to the
place it comes to, so a `..` behind a directory that does not exist is no obstacle. -/
def startLogging (s : Session) (level : LogLevel) : Option String → Except Files.Fault Session
  | none => .ok (s.setLevel level)
  | some path => do
    let place := Place.ofPath path
    let files ← s.files.write place.path []
    return Session.setLevel { s with files := files, logFile := some (place, 0) } level

/-- The session after an edit.  Nothing is logged to a log file any more once it is deleted. -/
def edited (s : Session) (e : Edit) : Session :=
  { s with
    files := e.apply s.files
    logFile := s.logFile.filter fun log ↦ !e.deletes log.1 }

end Session
end Command
end Mensura
