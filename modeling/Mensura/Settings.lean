import Mensura.Datum

/-!
# Settings

How documents are rendered and what is logged.  Settings come as a table of data; every value is
checked, in the order of the fields, after keys that nobody knows are refused.
-/

set_option autoImplicit false

namespace Mensura

/-- How important a log record is, least first. -/
inductive LogLevel
  | debug | info | warning | error | critical
  deriving DecidableEq, Repr

namespace LogLevel

/-- All levels, least first. -/
def all : List LogLevel := [debug, info, warning, error, critical]

/-- The name of a level. -/
def name : LogLevel → String
  | debug => "DEBUG"
  | info => "INFO"
  | warning => "WARNING"
  | error => "ERROR"
  | critical => "CRITICAL"

/-- The place of a level in the order. -/
def rank : LogLevel → Nat
  | debug => 0
  | info => 1
  | warning => 2
  | error => 3
  | critical => 4

/-- A letter in capitals, as far as the names of levels need it: the dotless i has the capital of
the dotted one. -/
def capital (c : Char) : Char :=
  if c = 'ı' then 'I' else c.toUpper

/-- The level of a name in any case. -/
def ofName? (s : String) : Option LogLevel :=
  all.find? fun l ↦ l.name.toList = s.toList.map capital

end LogLevel

/-- What is wrong with settings. -/
inductive SettingsError
  | unknownKeys (keys : List String)
  | badDigits (shown : String)
  | badNotation
  | badInterval (shown : String)
  | badLevel
  /-- Something else stands where a table of settings should. -/
  | notTable (typeName : String)
  /-- The empty text, which has no characters to count as keys. -/
  | emptyText
  | unknownOverride (key : String)
  /-- A refused value that cannot even be shown. -/
  | fault (f : Fault)
  deriving DecidableEq, Repr

namespace SettingsError

/-- Whether the error lies in the kind of a value that holds settings. -/
def isTypeError : SettingsError → Bool
  | notTable _ | emptyText | unknownOverride _ => true
  | _ => false

/-- The wording of an error. -/
def message : SettingsError → String
  | unknownKeys keys => "Unknown setting(s): " ++ ", ".intercalate keys
  | badDigits shown => "max_digits must be a non-negative integer, got " ++ shown
  | badNotation => "scientific_notation must be a boolean"
  | badInterval shown => "poll_interval must be a positive number, got " ++ shown
  | badLevel => "log_level must be one of " ++ ", ".intercalate (LogLevel.all.map LogLevel.name)
  | notTable typeName => "'" ++ typeName ++ "' object is not iterable"
  | emptyText => "dimcalc.config.Settings() argument after ** must be a mapping, not str"
  | unknownOverride key =>
    "Settings.__init__() got an unexpected keyword argument '" ++ key ++ "'"
  | fault f => f.message

end SettingsError

/-- A number of seconds, as it was given. -/
inductive Interval
  | whole (n : Int)
  | real (x : Float)

namespace Interval

/-- The number of seconds to wait. -/
def seconds : Interval → Except Fault Float
  | whole n =>
    let x := Binary64.ofInt n
    if x.isInf then .error .outOfRange else .ok x
  | real x => .ok x

/-- The interval as data. -/
def toDatum : Interval → Datum
  | whole n => .int n
  | real x => .real x

end Interval

/-- The settings. -/
structure Settings where
  maxDigits : Nat := 3
  scientific : Bool := false
  /-- The time between two looks at a watched file. -/
  pollInterval : Interval := .real 0.5
  logLevel : LogLevel := .info

namespace Settings

/-- The keys of the settings. -/
def digitsKey : String := "max_digits"
def scientificKey : String := "scientific_notation"
def intervalKey : String := "poll_interval"
def levelKey : String := "log_level"

/-- All keys. -/
def keys : List String := [digitsKey, scientificKey, intervalKey, levelKey]

/-- Refuses a value with an error that shows it. -/
def refuse {β : Type} (error : String → SettingsError) (d : Datum) : Except SettingsError β :=
  match d.shown with
  | .ok shown => .error (error shown)
  | .error f => .error (.fault f)

/-- A number of decimal places. -/
def digitsOf : Datum → Except SettingsError Nat
  | .int n => if 0 ≤ n then .ok n.toNat else refuse .badDigits (.int n)
  | d => refuse .badDigits d

/-- A choice of notation. -/
def scientificOf : Datum → Except SettingsError Bool
  | .bool b => .ok b
  | _ => .error .badNotation

/-- A positive number of seconds; only what compares as zero or less is refused. -/
def intervalOf : Datum → Except SettingsError Interval
  | .int n => if 0 < n then .ok (.whole n) else refuse .badInterval (.int n)
  | .real x => if x ≤ 0 then refuse .badInterval (.real x) else .ok (.real x)
  | d => refuse .badInterval d

/-- A log level, by its name.  No other value reads like one. -/
def levelOf : Datum → Except SettingsError LogLevel
  | .text s =>
    match LogLevel.ofName? s with
    | some l => .ok l
    | none => .error .badLevel
  | d => refuse (fun _ ↦ .badLevel) d

/-- The settings as data. -/
def toData (s : Settings) : List (String × Datum) :=
  [(digitsKey, .int s.maxDigits), (scientificKey, .bool s.scientific),
    (intervalKey, s.pollInterval.toDatum), (levelKey, .text s.logLevel.name)]

/-- The settings with the given values in place of their own. -/
def withData (s : Settings) (data : List (String × Datum)) : Except SettingsError Settings := do
  let value := fun key ↦ ((data.lookup key) <|> (s.toData.lookup key)).getD .none
  return {
    maxDigits := ← digitsOf (value digitsKey)
    scientific := ← scientificOf (value scientificKey)
    pollInterval := ← intervalOf (value intervalKey)
    logLevel := ← levelOf (value levelKey) }

/-- Puts a key into sorted keys. -/
def insertKey (key : String) : List String → List String
  | [] => [key]
  | k :: rest => if key.toList < k.toList then key :: k :: rest else k :: insertKey key rest

/-- Keys in the order of their code points. -/
def sortKeys (ks : List String) : List String :=
  ks.foldr insertKey []

/-- The settings of a table. -/
def ofData (data : List (String × Datum)) : Except SettingsError Settings :=
  let unknown := (data.map Prod.fst).filter fun k ↦ !keys.contains k
  if unknown.isEmpty then withData {} data else .error (.unknownKeys (sortKeys unknown))

/-- The settings with all overrides that have a value. -/
def merged (s : Settings) (overrides : List (String × Datum)) : Except SettingsError Settings :=
  let given := overrides.filter fun o ↦
    match o.2 with
    | .none => false
    | _ => true
  match given.find? fun o ↦ !keys.contains o.1 with
  | some o => .error (.unknownOverride o.1)
  | none => s.withData given

end Settings
end Mensura
