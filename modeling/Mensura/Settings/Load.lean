import Mensura.Files
import Mensura.Settings
import Mensura.Settings.Toml

/-!
# Settings from files

A file of settings has them at its top level.  A project file, known by its name, has them in a
section of its own, and none if there is no such section.
-/

set_option autoImplicit false

namespace Mensura
namespace Settings

/-- Why no settings could be loaded. -/
inductive LoadError
  | file (f : Files.Fault)
  | undecodable (e : Text.Utf8Error)
  | malformed
  /-- A number that is too long to be read. -/
  | fault (f : Fault)
  /-- Something that is no table has a section looked up in it. -/
  | noSection
  | invalid (e : SettingsError)
  deriving DecidableEq, Repr

/-- The file that is looked for unless another is given. -/
def defaultFile : String := "dimcalc.toml"

/-- The name of project files. -/
def projectFile : String := "pyproject.toml"

/-- The section of project files. -/
def section? (data : List (String × Datum)) : Except LoadError Datum :=
  match (data.lookup "tool").getD (.table []) with
  | .table tools => .ok ((tools.lookup "dimcalc").getD (.table []))
  | _ => .error .noSection

/-- The settings of a datum.  Of a text, each character counts as a key. -/
def ofDatum : Datum → Except SettingsError Settings
  | .table data => ofData data
  | .text s =>
    if s.isEmpty then .error .emptyText
    else ofData ((s.toList.eraseDups.map String.singleton).map fun k ↦ (k, .none))
  | d => .error (.notTable d.typeName)

/-- The settings of a file, given its name without directories and its content. -/
def ofFile (name : String) (content : List UInt8) : Except LoadError Settings := do
  match Text.decode content with
  | .error e => throw (.undecodable e)
  | .ok cs =>
    match Toml.ofText (String.ofList cs) with
    | .error .malformed => throw .malformed
    | .error (.fault f) => throw (.fault f)
    | .ok data =>
      let settings ← if name = projectFile then section? data else pure (.table data)
      match ofDatum settings with
      | .ok s => return s
      | .error e => throw (.invalid e)

/-- The settings of a file, or of the default file if none is given and there is one. -/
def load (fs : Files) (path : Option String) : Except LoadError Settings :=
  match path with
  | some path =>
    match fs.read (Path.normal path) with
    | .ok content => ofFile (Path.baseName path) content
    | .error f => .error (.file f)
  | none =>
    match fs.read defaultFile with
    | .ok content => ofFile defaultFile content
    | .error _ => .ok {}

end Settings
end Mensura
