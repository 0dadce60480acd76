import Mensura.Files
import Mensura.Text.Real

/-!
# Command-line arguments

    [-v] [--log-file FILE] eval EXPRESSION [--unit UNIT]
    [-v] [--log-file FILE] render SOURCE [-o FILE] [--digits N] [--scientific | --no-scientific]
                                  [--watch] [--interval SECONDS] [--config FILE]

Options are read one argument after the other.  A value stands behind `=`, behind a single letter
or in the next argument, whatever that looks like.  `--` ends the options.  Before a command's name
the first argument that is no option is that name; behind it, arguments and options mix.
-/

set_option autoImplicit false

namespace Mensura
namespace Command

/-- What an option is for. -/
inductive Purpose
  | verbose | logFile | help | unit | output | digits | scientific | noScientific
  | watch | interval | config
  deriving DecidableEq, Repr

/-- An option with its spellings. -/
structure OptionSpec where
  purpose : Purpose
  long : String
  short : Option Char := none
  takesValue : Bool := false

/-- The options before a command. -/
def commonOptions : List OptionSpec := [
  { purpose := .verbose, long := "--verbose", short := some 'v' },
  { purpose := .logFile, long := "--log-file", takesValue := true },
  { purpose := .help, long := "--help" }]

/-- The options of `eval`. -/
def evalOptions : List OptionSpec := [
  { purpose := .unit, long := "--unit", takesValue := true },
  { purpose := .help, long := "--help" }]

/-- The options of `render`. -/
def renderOptions : List OptionSpec := [
  { purpose := .output, long := "--output", short := some 'o', takesValue := true },
  { purpose := .digits, long := "--digits", takesValue := true },
  { purpose := .scientific, long := "--scientific" },
  { purpose := .noScientific, long := "--no-scientific" },
  { purpose := .watch, long := "--watch" },
  { purpose := .interval, long := "--interval", takesValue := true },
  { purpose := .config, long := "--config", takesValue := true },
  { purpose := .help, long := "--help" }]

/-- The options and arguments read so far, the latest first; `awaited` still lacks its value. -/
structure Parsed where
  options : List (Purpose × String) := []
  arguments : List String := []
  awaited : Option Purpose := none

/-- The latest value of an option. -/
def Parsed.value? (p : Parsed) (purpose : Purpose) : Option String :=
  p.options.lookup purpose

/-- Whether an option was given. -/
def Parsed.has (p : Parsed) (purpose : Purpose) : Bool :=
  (p.value? purpose).isSome

/-- The options given, each with its latest value, in the order in which they first appear. -/
def Parsed.given (p : Parsed) : List (Purpose × String) :=
  (p.options.reverse.map Prod.fst).eraseDups.filterMap fun purpose ↦
    (p.value? purpose).map (purpose, ·)

/-- Reads single-letter options behind one dash. -/
def readLetters (specs : List OptionSpec) (p : Parsed) : List Char → Option Parsed
  | [] => some p
  | c :: rest => do
    let spec ← specs.find? (·.short = some c)
    if !spec.takesValue then
      readLetters specs { p with options := (spec.purpose, "") :: p.options } rest
    else if rest.isEmpty then return { p with awaited := some spec.purpose }
    else return { p with options := (spec.purpose, String.ofList rest) :: p.options }

/-- Reads one argument that starts with a dash; `none` if it is no option. -/
def readOption (specs : List OptionSpec) (p : Parsed) (arg : String) : Option Parsed :=
  let cs := arg.toList
  let name := cs.takeWhile (· ≠ '=')
  let attached := cs.drop name.length
  match specs.find? (·.long.toList = name) with
  | some spec =>
    match spec.takesValue, attached with
    | true, [] => some { p with awaited := some spec.purpose }
    | true, _ :: v => some { p with options := (spec.purpose, String.ofList v) :: p.options }
    | false, [] => some { p with options := (spec.purpose, "") :: p.options }
    | false, _ :: _ => none
  | none => if cs.take 2 = ['-', '-'] then none else readLetters specs p (cs.drop 1)

/-- Reads arguments; `mixed` tells whether options may follow an argument.  Answers what was read
and, where they may not, the arguments from the first on that is no option. -/
def readArguments (specs : List OptionSpec) (mixed : Bool) (p : Parsed) :
    List String → Option (Parsed × List String)
  | [] => if p.awaited.isSome then none else some (p, [])
  | arg :: rest =>
    match p.awaited with
    | some purpose =>
      readArguments specs mixed { p with options := (purpose, arg) :: p.options, awaited := none }
        rest
    | none =>
      if arg = "--" then
        if mixed then some ({ p with arguments := rest.reverse ++ p.arguments }, [])
        else some (p, rest)
      else if arg.toList.head? = some '-' && 1 < arg.length then do
        readArguments specs mixed (← readOption specs p arg) rest
      else if mixed then
        readArguments specs mixed { p with arguments := arg :: p.arguments } rest
      else some (p, arg :: rest)

/-! ## Requests -/

/-- What `render` is asked for. -/
structure RenderRequest where
  source : String := ""
  output : Option String := none
  digits : Option Int := none
  scientific : Option Bool := none
  watch : Bool := false
  interval : Option Float := none
  config : Option String := none

/-- What a command is asked for. -/
inductive Job
  | help
  | eval (expression : String) (unit : Option String)
  | render (request : RenderRequest)

/-- A job and what is logged on the way. -/
structure Request where
  verbose : Bool
  logFile : Option String
  job : Job

/-- Why arguments are refused. -/
inductive Refusal
  | misuse
  /-- A path that could never name a file. -/
  | badPath (path : String)
  deriving DecidableEq, Repr

/-- What has been read; nothing is misuse. -/
def orMisuse {β : Type} : Option β → Except Refusal β
  | some b => .ok b
  | none => .error .misuse

/-- A path without null characters. -/
def pathOf (path : String) : Except Refusal String :=
  if Path.isImpossible path then .error (.badPath path) else .ok path

/-- A path that may be written to. -/
def writable (fs : Files) (path : String) : Except Refusal String := do
  let path ← pathOf path
  if fs.isDirectory path then throw .misuse else return path

/-- A path that there is a file at. -/
def readable (fs : Files) (path : String) : Except Refusal String := do
  let path ← pathOf path
  if fs.isFile path then return path else throw .misuse

/-- A number of decimal places. -/
def digitsOf (s : String) : Except Refusal Int := do
  let n ← orMisuse (Text.integer s).toOption
  if 0 ≤ n then return n else throw .misuse

/-- A number of seconds; only what compares as zero or less is refused. -/
def secondsOf (s : String) : Except Refusal Float := do
  let x ← orMisuse (Text.real? s)
  if x ≤ 0 then throw .misuse else return x

/-- The choice of notation that was made last. -/
def scientificOf (p : Parsed) : Option Bool :=
  p.options.findSome? fun o ↦
    if o.1 = .scientific then some true else if o.1 = .noScientific then some false else none

/-- The job of `eval`. -/
def evalJob (args : List String) : Except Refusal Job := do
  let (p, _) ← orMisuse (readArguments evalOptions true {} args)
  if p.has .help then return .help
  match p.arguments with
  | [expression] => return .eval expression (p.value? .unit)
  | _ => throw .misuse

/-- A request with what an option says. -/
def RenderRequest.withOption (fs : Files) (r : RenderRequest) :
    Purpose × String → Except Refusal RenderRequest
  | (.output, s) => do return { r with output := some (← writable fs s) }
  | (.digits, s) => do return { r with digits := some (← digitsOf s) }
  | (.interval, s) => do return { r with interval := some (← secondsOf s) }
  | (.config, s) => do return { r with config := some (← readable fs s) }
  | _ => .ok r

/-- The job of `render`.  Values are looked at in the order in which options and arguments first
appear, the source behind all options. -/
def renderJob (fs : Files) (args : List String) : Except Refusal Job := do
  let (p, _) ← orMisuse (readArguments renderOptions true {} args)
  if p.has .help then return .help
  let r : RenderRequest := { scientific := scientificOf p, watch := p.has .watch }
  let r ← p.given.foldlM (RenderRequest.withOption fs) r
  match p.arguments.reverse with
  | [] => throw .misuse
  | source :: more =>
    let source ← readable fs source
    if more.isEmpty then return .render { r with source := source } else throw .misuse

/-- The request that arguments stand for. -/
def Request.ofArguments (fs : Files) (args : List String) : Except Refusal Request := do
  let (p, rest) ← orMisuse (readArguments commonOptions false {} args)
  if p.has .help then return ⟨false, none, .help⟩
  let logFile ← (p.value? .logFile).mapM (writable fs)
  let job ←
    match rest with
    | "eval" :: args => evalJob args
    | "render" :: args => renderJob fs args
    | _ => throw .misuse
  return ⟨p.has .verbose, logFile.filter (!·.isEmpty), job⟩

end Command
end Mensura
