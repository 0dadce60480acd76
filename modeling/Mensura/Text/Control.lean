/-!
# Control sequences

A terminal takes an escape character, an opening bracket, parameters and a letter for a command:
colours, movements of the cursor.  `withoutControls` leaves such sequences out of a text.
-/

set_option autoImplicit false

namespace Mensura
namespace Text

/-- The characters of a parameter. -/
def isParameter (c : Char) : Bool :=
  c.isDigit || c = ';' || c = '?'

/-- The length of the control sequence that a text starts with; zero if it starts with none. -/
def controlLength : List Char → Nat
  | '\x1b' :: '[' :: rest =>
    let parameters := rest.takeWhile isParameter
    match rest.drop parameters.length with
    | c :: _ => if c.isAlpha then parameters.length + 3 else 0
    | [] => 0
  | _ => 0

/-- The characters outside control sequences.  `taken` characters still belong to the last
one. -/
def dropControls : (taken : Nat) → List Char → List Char
  | _, [] => []
  | taken + 1, _ :: rest => dropControls taken rest
  | 0, c :: rest =>
    match controlLength (c :: rest) with
    | 0 => c :: dropControls 0 rest
    | length + 1 => dropControls length rest

/-- The text without its control sequences. -/
def withoutControls (s : String) : String :=
  String.ofList (dropControls 0 s.toList)

end Text
end Mensura
