import Mensura.Datum

/-!
# Reading configuration files

The part of TOML that settings need: tables, comments, integers, floats, booleans and strings on
one line.  Everything else is malformed.  A decimal integer that is too long to be read is a fault,
found before anything behind it.

A line opens a table, or gives a key of the open table a value, or says nothing.  Keys may be
dotted.  What a header has opened cannot be opened or added to by dotted keys again, and no key is
given a value twice.
-/

set_option autoImplicit false

namespace Mensura
namespace Settings
namespace Toml

/-! ## Keys and values

Each of these reads something at the start of a text and answers it with the rest, or `none` where
the text is malformed. -/

/-- Blanks and tabs skipped. -/
def skipBlanks (cs : List Char) : List Char :=
  cs.dropWhile fun c ↦ c = ' ' || c = '\t'

/-- Whether a control character, other than a tab, makes a text malformed. -/
def isIllegal (c : Char) : Bool :=
  c ≠ '\t' && (c.toNat < 32 || c.toNat = 127)

/-- Whether a character may stand in a key without quotes. -/
def isBare (c : Char) : Bool :=
  c.isAlphanum || c = '_' || c = '-'

/-- The value of a hexadecimal digit. -/
def hexDigit? (c : Char) : Option Nat :=
  if c.isDigit then some (c.toNat - 48)
  else if 'a' ≤ c && c ≤ 'f' then some (c.toNat - 87)
  else if 'A' ≤ c && c ≤ 'F' then some (c.toNat - 55)
  else none

/-- The number of hexadecimal digits. -/
def hexNumber? (digits : List Char) : Option Nat :=
  digits.foldl (fun n c ↦ do return 16 * (← n) + (← hexDigit? c)) (some 0)

/-- The character of an escape, given the character behind the backslash. -/
def escaped? (c : Char) : Option Char :=
  [('b', '\x08'), ('t', '\t'), ('n', '\n'), ('f', '\x0c'), ('r', '\r'), ('"', '"'),
    ('\\', '\\')].lookup c

/-- A character given by its code point in hexadecimal. -/
def ofCodePoint? (digits : List Char) : Option Char := do
  let n ← hexNumber? digits
  if h : n.isValidChar then some (Char.ofNatAux n h) else none

/-- The rest of a string between double quotes.  The fuel is its length. -/
def basicString : (fuel : Nat) → List Char → Option (List Char × List Char)
  | 0, _ => none
  | _, [] => none
  | _, '"' :: rest => some ([], rest)
  | fuel + 1, '\\' :: c :: rest => do
    let width := if c = 'u' then 4 else if c = 'U' then 8 else 0
    if width = 0 then
      let e ← escaped? c
      let (s, rest) ← basicString fuel rest
      return (e :: s, rest)
    else
      let digits := rest.take width
      if digits.length < width then none
      else
        let e ← ofCodePoint? digits
        let (s, rest) ← basicString fuel (rest.drop width)
        return (e :: s, rest)
  | fuel + 1, c :: rest => do
    if isIllegal c || c = '\\' then none
    else
      let (s, rest) ← basicString fuel rest
      return (c :: s, rest)

/-- The rest of a string between single quotes. -/
def literalString : List Char → Option (List Char × List Char)
  | [] => none
  | c :: rest => do
    if c = '\'' then return ([], rest)
    else if isIllegal c then none
    else
      let (s, rest) ← literalString rest
      return (c :: s, rest)

/-- A string in either kind of quotes. -/
def string (cs : List Char) : Option (String × List Char) := do
  let (s, rest) ← match cs with
    | '"' :: rest => basicString (rest.length + 1) rest
    | '\'' :: rest => literalString rest
    | _ => none
  return (String.ofList s, rest)

/-- One part of a key. -/
def keyPart (cs : List Char) : Option (String × List Char) :=
  match cs with
  | '"' :: _ | '\'' :: _ => string cs
  | _ =>
    let bare := cs.takeWhile isBare
    if bare.isEmpty then none else some (String.ofList bare, cs.drop bare.length)

/-- A key of parts joined by points, with the blanks behind it. -/
def key : (fuel : Nat) → List Char → Option (List String × List Char)
  | 0, _ => none
  | fuel + 1, cs => do
    let (part, rest) ← keyPart cs
    match skipBlanks rest with
    | '.' :: rest => do
      let (parts, rest) ← key fuel (skipBlanks rest)
      return (part :: parts, rest)
    | rest => return ([part], rest)

/-- Digits of a kind in front, single underscores between them. -/
def digits (isDigit : Char → Bool) : (started : Bool) → List Char → List Char × List Char
  | _, [] => ([], [])
  | started, c :: rest =>
    if isDigit c then
      let (ds, rest) := digits isDigit true rest
      (c :: ds, rest)
    else
      match started, c, rest with
      | true, '_', d :: more =>
        if isDigit d then
          let (ds, rest) := digits isDigit true more
          (d :: ds, rest)
        else ([], c :: rest)
      | _, _, _ => ([], c :: rest)

/-- The number of digits in a base. -/
def numberOf (base : Nat) (ds : List Char) : Nat :=
  ds.foldl (fun n c ↦ base * n + (hexDigit? c).getD 0) 0

/-- An integer in a base other than ten, behind its mark. -/
def basedInteger (base : Nat) (isDigit : Char → Bool) (cs : List Char) :
    Option (Datum × List Char) :=
  let (ds, rest) := digits isDigit false cs
  if ds.isEmpty then none else some (.int (numberOf base ds), rest)

/-- A fraction behind a point; nothing if there is none. -/
def fractionPart (cs : List Char) : List Char × List Char :=
  match cs with
  | '.' :: rest =>
    let (ds, rest) := digits Char.isDigit false rest
    if ds.isEmpty then ([], cs) else (ds, rest)
  | _ => ([], cs)

/-- The exponent of a float; `none` if there is none. -/
def exponentPart (cs : List Char) : Option Int × List Char :=
  match cs with
  | c :: rest =>
    if c = 'e' || c = 'E' then
      let negative := rest.head? = some '-'
      let body := if negative || rest.head? = some '+' then rest.drop 1 else rest
      let (ds, rest) := digits Char.isDigit false body
      if ds.isEmpty then (none, cs)
      else
        let n : Int := numberOf 10 ds
        (some (if negative then -n else n), rest)
    else (none, cs)
  | [] => (none, [])

/-- Why a file has no data. -/
inductive Problem
  | malformed
  | fault (f : Fault)
  deriving DecidableEq, Repr

/-- What has been read, if anything has been. -/
def orMalformed {β : Type} : Option β → Except Problem β
  | some b => .ok b
  | none => .error .malformed

/-- A decimal integer or float behind its sign. -/
def decimal (negative : Bool) (cs : List Char) : Except Problem (Datum × List Char) :=
  let (whole, rest) := match cs with
    | '0' :: rest => (['0'], rest)
    | _ => digits Char.isDigit false cs
  if whole.isEmpty then .error .malformed
  else
    let (fraction, rest) := fractionPart rest
    let (exponent, rest) := exponentPart rest
    if fraction.isEmpty && exponent.isNone then
      if Text.longestInteger < whole.length then .error (.fault (.integerTooLong whole.length))
      else
        let n : Int := numberOf 10 whole
        .ok (.int (if negative then -n else n), rest)
    else
      let x := Binary64.ofDecimal (numberOf 10 (whole ++ fraction))
        (exponent.getD 0 - fraction.length)
      .ok (.real (if negative then -x else x), rest)

/-- An infinity or what is no number. -/
def special (negative : Bool) (cs : List Char) : Option (Datum × List Char) :=
  let infinity : Float := Binary64.ofMagnitudeBits negative Binary64.infinityBits
  match cs with
  | 'i' :: 'n' :: 'f' :: rest => some (.real infinity, rest)
  | 'n' :: 'a' :: 'n' :: rest => some (.real (infinity - infinity), rest)
  | _ => none

/-- A number behind its sign. -/
def number (negative : Bool) (cs : List Char) : Except Problem (Datum × List Char) :=
  match special negative cs with
  | some read => .ok read
  | none => decimal negative cs

/-- A value. -/
def value (cs : List Char) : Except Problem (Datum × List Char) :=
  match cs with
  | 't' :: 'r' :: 'u' :: 'e' :: rest => .ok (.bool true, rest)
  | 'f' :: 'a' :: 'l' :: 's' :: 'e' :: rest => .ok (.bool false, rest)
  | '0' :: 'x' :: rest => orMalformed (basedInteger 16 (fun c ↦ (hexDigit? c).isSome) rest)
  | '0' :: 'o' :: rest => orMalformed (basedInteger 8 (fun c ↦ '0' ≤ c && c ≤ '7') rest)
  | '0' :: 'b' :: rest => orMalformed (basedInteger 2 (fun c ↦ c = '0' || c = '1') rest)
  | '"' :: _ | '\'' :: _ => orMalformed ((string cs).map fun (s, rest) ↦ (.text s, rest))
  | '-' :: rest => number true rest
  | '+' :: rest => number false rest
  | _ => number false cs

/-- Whether only blanks and a comment are left on the line. -/
def isLineEnd (cs : List Char) : Bool :=
  match skipBlanks cs with
  | [] => true
  | '#' :: rest => !rest.any isIllegal
  | _ => false

/-! ## Lines -/

/-- What one line says. -/
inductive Line
  | nothing
  | header (path : List String)
  | entry (path : List String) (value : Datum)

/-- One line of a file. -/
def line (cs : List Char) : Except Problem Line :=
  match skipBlanks cs with
  | [] => .ok .nothing
  | '#' :: rest => if rest.any isIllegal then .error .malformed else .ok .nothing
  | '[' :: rest => do
    let (path, rest) ← orMalformed (key (rest.length + 1) (skipBlanks rest))
    match rest with
    | ']' :: rest => if isLineEnd rest then return .header path else throw .malformed
    | _ => throw .malformed
  | cs => do
    let (path, rest) ← orMalformed (key (cs.length + 1) cs)
    match rest with
    | '=' :: rest => do
      let (v, rest) ← value (skipBlanks rest)
      if isLineEnd rest then return .entry path v else throw .malformed
    | _ => throw .malformed

/-- The lines of a file, which line feeds end, alone or behind a carriage return. -/
def splitLines (line : List Char) : List Char → List (List Char)
  | [] => [line.reverse]
  | '\n' :: rest => line.reverse :: splitLines [] rest
  | '\r' :: '\n' :: rest => line.reverse :: splitLines [] rest
  | c :: rest => splitLines (c :: line) rest

/-! ## Tables -/

/-- The entries with one of them replaced, or added at the end. -/
def putEntry (key : String) (v : Datum) : List (String × Datum) → List (String × Datum)
  | [] => [(key, v)]
  | (k, w) :: rest => if k = key then (k, v) :: rest else (k, w) :: putEntry key v rest

/-- Makes sure that there is a table at a path; `none` if a value stands in the way. -/
def openTable : (path : List String) → List (String × Datum) → Option (List (String × Datum))
  | [], entries => some entries
  | k :: path, entries => do
    let inner ← match entries.lookup k with
      | none => some []
      | some (.table inner) => some inner
      | some _ => none
    return putEntry k (.table (← openTable path inner)) entries

/-- Gives a key at a path a value; `none` if it has one, or a value stands in the way. -/
def addEntry (v : Datum) : (path : List String) → List (String × Datum) →
    Option (List (String × Datum))
  | [], _ => none
  | [k], entries => if (entries.lookup k).isSome then none else some (putEntry k v entries)
  | k :: path, entries => do
    let inner ← match entries.lookup k with
      | none => some []
      | some (.table inner) => some inner
      | some _ => none
    return putEntry k (.table (← addEntry v path inner)) entries

/-- A file read so far: its data, the open table, the tables that headers may not open again, and
those that will be among them from the next header on. -/
structure State where
  data : List (String × Datum) := []
  current : List String := []
  closed : List (List String) := []
  pending : List (List String) := []

/-- The proper, non-empty beginnings of a path. -/
def beginnings (path : List String) : List (List String) :=
  (List.range (path.length - 1)).map fun i ↦ path.take (i + 1)

/-- Reads one line. -/
def step (s : State) : Line → Option State
  | .nothing => some s
  | .header path => do
    let closed := s.pending ++ s.closed
    if closed.contains path then none
    else
      let data ← openTable path s.data
      return ⟨data, path, path :: closed, []⟩
  | .entry path v => do
    let containers := (beginnings path).map (s.current ++ ·)
    if containers.any s.closed.contains then none
    else
      let data ← addEntry v (s.current ++ path) s.data
      return { s with data := data, pending := containers ++ s.pending }

/-- Reads lines. -/
def run (s : State) : List (List Char) → Except Problem State
  | [] => .ok s
  | cs :: rest => do run (← orMalformed (step s (← line cs))) rest

/-- The data of a file. -/
def ofText (text : String) : Except Problem (List (String × Datum)) :=
  (run {} (splitLines [] text.toList)).map State.data

end Toml
end Settings
end Mensura
