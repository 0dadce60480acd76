import Mensura.Command.Arguments
import Mensura.Command.Session
import Mensura.Document
import Mensura.Quantity.Express
import Mensura.Scalar.Binary64
import Mensura.Settings.Load
import Mensura.Watch

/-!
# The command line

`eval` shows the value of an expression, `render` writes the document of a source file, once or —
while watching — after every change of the source.

A command runs on a `Session` and ends with an `Exit`: a status, or a trouble that it does not
handle.  While watching, every trouble that a changed source can cause is reported and the watch
goes on; only a fault inside the calculator ends it.
-/

set_option autoImplicit false

namespace Mensura
namespace Command

/-- What can go wrong besides misuse. -/
inductive Trouble
  | document (line : Nat) (e : CalcError)
  | expression (e : CalcError)
  | fault (f : Fault)
  | undecodable (e : Text.Utf8Error)
  | file (f : Files.Fault) (path : String)
  | settings (e : SettingsError)
  /-- A settings file whose text is malformed. -/
  | malformedSettings
  /-- A project file whose sections are no tables. -/
  | noSection
  deriving DecidableEq, Repr

namespace Trouble

/-- The wording of a trouble. -/
def message : Trouble → String
  | document line e => (DocumentFailure.error line e).message
  | expression e => e.message
  | fault f => f.message
  | undecodable e => e.message
  | file f path => f.message path
  | settings e => e.message
  | malformedSettings => "malformed TOML"
  | noSection => "not a table"

/-- A failed calculation as a trouble. -/
def ofFailure : Failure → Trouble
  | .calc e => expression e
  | .fault f => fault f

/-- A failed document as a trouble. -/
def ofDocument : DocumentFailure → Trouble
  | .error line e => document line e
  | .fault f => fault f

/-- Whether it is an error of the calculator, which every command reports. -/
def isCalcError : Trouble → Bool
  | document .. | expression .. => true
  | _ => false

/-- Whether watching goes on after it: errors of the calculator, and files that cannot be read or
written or hold no text. -/
def isSurvivable : Trouble → Bool
  | document .. | expression .. | undecodable .. | file .. => true
  | _ => false

end Trouble

/-- How a command ends. -/
inductive Exit
  | status (code : Nat)
  | crash (trouble : Trouble)

/-! ## Evaluating -/

/-- The value of an expression as text, in a unit if one is given. -/
def evalText (expression : String) (unit : Option String) : Result String := do
  let e : Expr Float ← Expr.ofText Registry.standard expression
  let q ← e.eval Scope.constants
  match unit with
  | some u => if u.isEmpty then q.text else q.textIn Registry.standard u
  | none => q.text

/-- Reports an error of the calculator and gives up; any other trouble is left unhandled. -/
def giveUp (s : Session) (t : Trouble) : Session × Exit :=
  if t.isCalcError then (s.complain ("Error: " ++ t.message), .status 1) else (s, .crash t)

/-- Shows the value of an expression. -/
def runEval (s : Session) (expression : String) (unit : Option String) : Session × Exit :=
  match evalText expression unit with
  | .ok text => (s.say text, .status 0)
  | .error f => giveUp s (.ofFailure f)

/-! ## Rendering -/

/-- What a rendering reads and writes. -/
structure Setup where
  source : String
  output : String
  settings : Settings

/-- The text of a source file, its line ends unified. -/
def sourceText (fs : Files) (path : String) : Except Trouble String :=
  match fs.read path with
  | .error f => .error (.file f path)
  | .ok content =>
    match Text.decode content with
    | .ok cs => .ok (String.ofList (Text.unifyLineEnds false cs))
    | .error e => .error (.undecodable e)

/-- The document of a source file. -/
def documentOf (fs : Files) (setup : Setup) : Except Trouble Document.Rendered := do
  let text ← sourceText fs setup.source
  match Document.render Float setup.settings.maxDigits setup.settings.scientific text with
  | .ok d => return d
  | .error f => throw (.ofDocument f)

/-- Renders the source to the output file.  Answers the trouble that kept it from doing so. -/
def renderFile (setup : Setup) (s : Session) : Session × Option Trouble :=
  match documentOf s.files setup with
  | .error t => (s, some t)
  | .ok d =>
    let s := s.log Session.statementLogger .info
      ("Rendered " ++ toString d.statements ++ " statement(s)")
    match s.files.write setup.output (Text.encode d.text) with
    | .error f => (s, some (.file f setup.output))
    | .ok files =>
      (Session.log { s with files := files } Session.commandLogger .info
        ("Wrote " ++ setup.output), none)

/-- Renders once. -/
def renderOnce (setup : Setup) (s : Session) : Session × Exit :=
  match renderFile setup s with
  | (s, none) => (s.say ("Wrote " ++ setup.output), .status 0)
  | (s, some t) => giveUp s t

/-! ## Watching -/

/-- Renders while watching: reports what can be survived, answers what cannot. -/
def rerender (setup : Setup) (s : Session) : Session × Option Trouble :=
  match renderFile setup s with
  | (s, none) => (s.say ("Wrote " ++ setup.output), none)
  | (s, some t) =>
    if t.isSurvivable then
      ((s.log Session.commandLogger .error t.message).complain ("Error: " ++ t.message), none)
    else (s, some t)

/-- The first rendering of a watch. -/
def startWatching (setup : Setup) (s : Session) : Session × Option Trouble :=
  match rerender setup s with
  | (s, none) => (s.say ("Watching " ++ setup.source ++ " (Ctrl+C to stop)"), none)
  | failed => failed

/-- One look at the source: renders if its modification time has changed.  Answers the time last
seen. -/
def lookAgain {τ : Type} [DecidableEq τ] (setup : Setup) (last : τ) (now : Option τ)
    (s : Session) : Session × τ × Option Trouble :=
  match Watch.look last now with
  | (.missing, seen) =>
    (s.log Session.commandLogger .warning
      (setup.source ++ " disappeared, waiting for it to come back"), seen, none)
  | (.unchanged, seen) => (s, seen, none)
  | (.changed, seen) =>
    let s := s.log Session.commandLogger .info (setup.source ++ " changed, re-rendering")
    let (s, t) := rerender setup s
    (s, seen, t)

/-- Renders after each of a list of edits. -/
def followEdits (setup : Setup) : List Edit → Session → Session × Option Trouble
  | [], s => (s, none)
  | e :: rest, s =>
    match rerender setup (s.edited e) with
    | (s, none) => followEdits setup rest s
    | failed => failed

/-- The last line of a watch. -/
def stopWatching (s : Session) : Session :=
  s.say "Stopped watching."

/-! ## Requests -/

/-- The settings of a rendering: those of a file, with what the arguments say in their place. -/
def settingsOf (fs : Files) (r : RenderRequest) : Except Trouble Settings := do
  let loaded ← match Settings.load fs r.config with
    | .ok s => .ok s
    | .error (.file f) => .error (.file f (r.config.getD Settings.defaultFile))
    | .error (.undecodable e) => .error (.undecodable e)
    | .error .malformed => .error .malformedSettings
    | .error (.fault f) => .error (.fault f)
    | .error .noSection => .error .noSection
    | .error (.invalid e) => .error (.settings e)
  let overrides := [
    (Settings.digitsKey, (r.digits.map Datum.int).getD .none),
    (Settings.scientificKey, (r.scientific.map Datum.bool).getD .none),
    (Settings.intervalKey, (r.interval.map Datum.real).getD .none)]
  match loaded.merged overrides with
  | .ok s => return s
  | .error e => throw (.settings e)

/-- Whether bad settings are reported; the others are left unhandled. -/
def isReported : Trouble → Bool
  | .settings e => !e.isTypeError
  | .undecodable _ | .malformedSettings | .fault _ => true
  | _ => false

/-- What there is to render, with logging started; or how the command ends already. -/
def prepare (s : Session) (request : Request) (r : RenderRequest) :
    Session × Except Exit Setup :=
  match settingsOf s.files r with
  | .error t =>
    if isReported t then
      (s.complain ("Error: Invalid configuration: " ++ t.message), .error (.status 1))
    else (s, .error (.crash t))
  | .ok settings =>
    let level := if request.verbose then .debug else settings.logLevel
    match s.startLogging level request.logFile with
    | .error f => (s, .error (.crash (.file f (request.logFile.getD ""))))
    | .ok s =>
      let source := Path.normal r.source
      let output := match r.output with
        | some path => Path.normal path
        | none => Path.replaceSuffix source ".tex"
      (s, .ok ⟨source, output, settings⟩)

/-- The forms of the commands. -/
def usage : String :=
  "Usage: [-v] [--log-file FILE] eval EXPRESSION [--unit UNIT]\n" ++
  "       [-v] [--log-file FILE] render SOURCE [-o FILE] [--digits N]\n" ++
  "           [--scientific | --no-scientific] [--watch] [--interval SECONDS] [--config FILE]"

/-- The exit status of misuse. -/
def misuse : Nat := 2

/-- Where a command stands after its first step. -/
inductive Progress
  | ended (exit : Exit)
  /-- The first rendering is done, and the source is to be watched. -/
  | watching (setup : Setup)

/-- Begins to watch, or renders once and for all. -/
def beginRender (watch : Bool) (setup : Setup) (s : Session) : Session × Progress :=
  if watch then
    match startWatching setup s with
    | (s, some t) => (s, .ended (.crash t))
    | (s, none) => (s, .watching setup)
  else
    match renderOnce setup s with
    | (s, e) => (s, .ended e)

/-- Does all that a command does before it watches anything. -/
def begin (args : List String) (s : Session) : Session × Progress :=
  match Request.ofArguments s.files args with
  | .error .misuse => (s, .ended (.status misuse))
  | .error (.badPath path) => (s, .ended (.crash (.file .nullCharacter path)))
  | .ok request =>
    match request.job with
    | .help => (s.say usage, .ended (.status 0))
    | .eval expression unit =>
      match s.startLogging (if request.verbose then .debug else .info) request.logFile with
      | .error f => (s, .ended (.crash (.file f (request.logFile.getD ""))))
      | .ok s =>
        match runEval s expression unit with
        | (s, e) => (s, .ended e)
    | .render r =>
      match prepare s request r with
      | (s, .error e) => (s, .ended e)
      | (s, .ok setup) => beginRender r.watch setup s

/-- Runs a command.  `watching` is what a watch does between its first rendering and its end. -/
def run (watching : Setup → Session → Session × Option Trouble) (args : List String)
    (s : Session) : Session × Exit :=
  match begin args s with
  | (s, .ended e) => (s, e)
  | (s, .watching setup) =>
    match watching setup s with
    | (s, some t) => (s, .crash t)
    | (s, none) => (stopWatching s, .status 0)

/-- A watch of scripted edits: shows the interval it would keep, then renders after each. -/
def scripted (edits : List Edit) (setup : Setup) (s : Session) : Session × Option Trouble :=
  match setup.settings.pollInterval.seconds with
  | .ok x => followEdits setup edits (s.say ("interval " ++ Binary64.text x))
  | .error f => (s, some (.fault f))

end Command
end Mensura
