import Mensura.Dimension
import Mensura.Text.Quoted

/-!
# What can go wrong

Errors are causes; their wording is in one place, the `message` functions.

* A `CalcError` is the calculator's own: a unit nobody knows, dimensions that do not match, text
  that cannot be read.  A document reports it with the line where it arose.
* A `Fault` is a value that an operation is not made for and does not guard against.  It stops
  the whole run and is never given a line.
-/

set_option autoImplicit false

namespace Mensura

/-! ## Units -/

/-- Why a text is no unit. -/
inductive UnitFault
  /-- It has the form of a name, but names no unit. -/
  | unknown
  | empty
  | disallowedCharacter
  /-- No token starts at a position; with what stands there. -/
  | unexpectedInput (position : Nat) (rest : String)
  /-- A token is left over. -/
  | unexpectedToken (token : String) (position : Nat)
  /-- Something else should stand at a position; with the token that does, if any. -/
  | expected (what : String) (position : Nat) (got : Option String)
  deriving DecidableEq, Repr

/-- What stands in the place of a token, between quotes. -/
def quotedOrEnd : Option String → String
  | some token => Text.quoted token
  | none => "end of input"

/-- The reason behind the colon; empty where there is no more to say. -/
def UnitFault.reason : UnitFault → String
  | unknown => ""
  | empty => "empty unit"
  | disallowedCharacter =>
    "only *, /, ^, **, parentheses, unit names, and signed integer exponents are allowed"
  | unexpectedInput position rest =>
    "unexpected input at " ++ toString position ++ ": " ++ Text.quoted rest
  | unexpectedToken token position =>
    "unexpected " ++ Text.quoted token ++ " at " ++ toString position
  | expected what position got =>
    "expected " ++ what ++ " at " ++ toString position ++ ", got " ++ quotedOrEnd got

/-! ## Syntax -/

/-- Why a text is no expression, formula, statement or document. -/
inductive SyntaxFault
  | unexpectedCharacter (c : Char)
  | unexpectedCharacterInFormula (c : Char)
  | invalidNumber (text : String)
  | expected (symbol : String) (got : Option String)
  | unexpected (got : Option String)
  | expectedValue (got : Option String)
  | expectedUnitExponent (got : Option String)
  | expectedProposition (got : Option String)
  | expectedClosing
  | expectedOperator (got : String)
  | notBinary (operator : String)
  | unrecognizedStatement (line : String)
  | digitsNotNumber (text : String)
  | tableShape
  | tableWithoutArguments
  | rawUnterminated
  | textAfterRaw
  deriving DecidableEq, Repr

/-- What stands in the place of a token, as it is. -/
def tokenOrEnd : Option String → String
  | some token => "'" ++ token ++ "'"
  | none => "end of input"

/-- The wording of a syntax fault. -/
def SyntaxFault.message : SyntaxFault → String
  | unexpectedCharacter c => "Unexpected character " ++ Text.quoted (String.singleton c)
  | unexpectedCharacterInFormula c =>
    "Unexpected character " ++ Text.quoted (String.singleton c) ++ " in boolean expression"
  | invalidNumber text => "Invalid number '" ++ text ++ "'"
  | expected symbol got => "Expected '" ++ symbol ++ "', got " ++ tokenOrEnd got
  | unexpected got => "Unexpected " ++ tokenOrEnd got
  | expectedValue got => "Expected a value, got " ++ tokenOrEnd got
  | expectedUnitExponent got => "Unit exponent must be an integer, got " ++ tokenOrEnd got
  | expectedProposition got => "Expected a proposition, got " ++ tokenOrEnd got
  | expectedClosing => "Expected ')'"
  | expectedOperator got => "Expected an operator, got '" ++ got ++ "'"
  | notBinary operator => "'" ++ operator ++ "' is not a binary operator"
  | unrecognizedStatement line => "Unrecognized statement '" ++ line ++ "'"
  | digitsNotNumber text => "digits expects a non-negative integer, got '" ++ text ++ "'"
  | tableShape => "ttable expects '[args] [expressions]'"
  | tableWithoutArguments => "ttable needs at least one argument"
  | rawUnterminated => "Unterminated raw LaTeX block"
  | textAfterRaw => "Unexpected text after raw LaTeX block"

/-! ## The calculator's errors -/

/-- The families of calculator errors. -/
inductive ErrorKind
  | unit | mismatch | arity | unknownFunction | undefinedSymbol | domain | parse
  deriving DecidableEq, Repr

/-- The errors of the calculator.  Quantities and numbers they speak of come as shown text. -/
inductive CalcError
  | badUnit (text : String) (fault : UnitFault)
  -- dimensions that do not match
  | cannotAdd (left right : Dimension)
  | cannotSubtract (left right : Dimension)
  | notDimensionless (function shown : String)
  | argumentsDiffer (function first other : String)
  | hintMismatch (label : String) (dim : Dimension)
  | cannotExpress (shown unit : String)
  -- operand counts
  | operandCount (operator : String) (expected got : Nat)
  | argumentCount (function expected : String) (got : Nat)
  -- names
  | unknownFunction (name : String)
  | undefinedSymbol (name : String)
  -- values outside the domain of an operation
  | notFinite (shown : String)
  | divisionByZero
  | exponentWithUnit (shown : String)
  | exponentNotFinite (shown : String)
  | fractionalExponentWithUnit (shown : String)
  | zeroToNegativePower
  | powerOverflow (base exponent : String)
  | negativeBase (base exponent : String)
  | inexactExponent (shown : String)
  | unitPowerNotInteger (shown : String)
  | unitToZero (unit : String)
  | unitScaleOverflow (unit exponent : String)
  | outsideDomain (function reason : String)
  | functionOverflow (function : String)
  | functionNotFinite (function : String)
  -- text that cannot be read, with the position of the fault from zero
  | syntaxAt (fault : SyntaxFault) (column : Nat)
  | syntaxOf (fault : SyntaxFault)
  deriving DecidableEq, Repr

namespace CalcError

/-- The family of an error. -/
def kind : CalcError → ErrorKind
  | badUnit .. => .unit
  | cannotAdd .. | cannotSubtract .. | notDimensionless .. | argumentsDiffer ..
  | hintMismatch .. | cannotExpress .. => .mismatch
  | operandCount .. | argumentCount .. => .arity
  | unknownFunction .. => .unknownFunction
  | undefinedSymbol .. => .undefinedSymbol
  | notFinite .. | divisionByZero | exponentWithUnit .. | exponentNotFinite ..
  | fractionalExponentWithUnit .. | zeroToNegativePower | powerOverflow .. | negativeBase ..
  | inexactExponent .. | unitPowerNotInteger .. | unitToZero .. | unitScaleOverflow ..
  | outsideDomain .. | functionOverflow .. | functionNotFinite .. => .domain
  | syntaxAt .. | syntaxOf .. => .parse

/-- The wording of an error. -/
def message : CalcError → String
  | badUnit text fault =>
    "Unknown unit '" ++ text ++ "'" ++
      (if fault.reason.isEmpty then "" else ": " ++ fault.reason)
  | cannotAdd left right =>
    "Can't add values with units '" ++ left.baseUnits ++ "' and '" ++ right.baseUnits ++ "'"
  | cannotSubtract left right =>
    "Can't subtract values with units '" ++ left.baseUnits ++ "' and '" ++ right.baseUnits ++ "'"
  | notDimensionless function shown =>
    "Function '" ++ function ++ "' expects dimensionless arguments, got '" ++ shown ++ "'"
  | argumentsDiffer function first other =>
    "Function '" ++ function ++ "' expects arguments with matching units, got '" ++ first ++
      "' and '" ++ other ++ "'"
  | hintMismatch label dim =>
    "Unit hint '" ++ label ++ "' does not match value with unit '" ++ dim.baseUnits ++ "'"
  | cannotExpress shown unit => "Can't express '" ++ shown ++ "' in '" ++ unit ++ "'"
  | operandCount operator expected got =>
    "Operator " ++ operator ++ " expects " ++ toString expected ++ " operand(s), got " ++
      toString got
  | argumentCount function expected got =>
    "Function '" ++ function ++ "' expects " ++ expected ++ " argument(s), got " ++ toString got
  | unknownFunction name => "Unknown function '" ++ name ++ "'"
  | undefinedSymbol name => "Undefined symbol '" ++ name ++ "'"
  | notFinite shown => "Result is not a finite number (" ++ shown ++ ")"
  | divisionByZero => "Division by zero"
  | exponentWithUnit shown =>
    "Exponent must be dimensionless or an integer, got '" ++ shown ++ "'"
  | exponentNotFinite shown => "Exponent " ++ shown ++ " is not finite"
  | fractionalExponentWithUnit shown =>
    "Fractional exponent '" ++ shown ++ "' must be dimensionless"
  | zeroToNegativePower => "Zero raised to a negative power"
  | powerOverflow base exponent =>
    "Overflow raising '" ++ base ++ "' to the power " ++ exponent
  | negativeBase base exponent =>
    "Can't raise negative value '" ++ base ++ "' to fractional power " ++ exponent
  | inexactExponent shown => "Exponent " ++ shown ++ " has no exact rational representation"
  | unitPowerNotInteger shown => "Units can only be raised to integer powers, got " ++ shown
  | unitToZero unit => "Raising unit '" ++ unit ++ "' to the power 0 is undefined"
  | unitScaleOverflow unit exponent =>
    "Unit scale overflow in '" ++ unit ++ "'^" ++ exponent
  | outsideDomain function reason => "Math domain error in " ++ function ++ "(): " ++ reason
  | functionOverflow function => "Overflow in " ++ function ++ "()"
  | functionNotFinite function => function ++ "() result is not finite"
  | syntaxAt fault column =>
    fault.message ++ " (column " ++ toString (column + 1) ++ ")"
  | syntaxOf fault => fault.message

end CalcError

/-! ## Faults -/

/-- The kinds of faults. -/
inductive FaultKind
  | badValue | badType | outOfRange
  deriving DecidableEq, Repr

/-- Values that an operation does not guard against. -/
inductive Fault
  /-- A unit's multiplier became zero, infinite or undefined. -/
  | multiplier
  | exponentNotInteger
  | wrongDimensionCount (got : Nat)
  /-- Something that is no real number was given as a dimension's exponent. -/
  | exponentType (typeName : String)
  | rationalType (typeName : String)
  | integerType (typeName : String)
  | nonFiniteRational (shown : String)
  | inexactRational (shown : String)
  | denominatorBound
  /-- A number that is none has no integral part and no logarithm. -/
  | undefinedToInteger
  | logarithmOfZero
  /-- The smallest or largest of a single argument. -/
  | loneArgument
  | badInteger (quoted : String)
  /-- A text with more digits than are read as an integer. -/
  | integerTooLong (digits : Nat)
  /-- An integer with more digits than are written. -/
  | integerTooLarge
  | negativePrecision
  | precisionTooBig
  | precisionTooLong
  | aliasTarget (name target : String)
  | aliasShadows (name : String)
  /-- A result beyond every double, where only a finite one makes sense. -/
  | outOfRange
  deriving DecidableEq, Repr

namespace Fault

/-- The kind of a fault. -/
def kind : Fault → FaultKind
  | exponentType .. | rationalType .. | integerType .. | loneArgument => .badType
  | outOfRange => .outOfRange
  | _ => .badValue

/-- The characters of a quoted numeral that a message shows. -/
def longestQuote : Nat := 200

/-- The wording of a fault. -/
def message : Fault → String
  | multiplier => "multiplier must be a finite, non-zero number"
  | exponentNotInteger => "dec_exp must be an integer"
  | wrongDimensionCount got =>
    "A dimension needs 7 exponents (" ++ ", ".intercalate (Base.all.map Base.letter) ++
      "), got " ++ toString got
  | exponentType typeName => "Dimension exponent must be a real number, got " ++ typeName
  | rationalType typeName => "rationalize() expects int or float, got " ++ typeName
  | integerType typeName =>
    "int() argument must be a string, a bytes-like object or a real number, not '" ++ typeName ++
      "'"
  | nonFiniteRational shown => "Cannot rationalize non-finite value " ++ shown
  | inexactRational shown => "Exponent " ++ shown ++ " has no exact rational representation"
  | denominatorBound => "max_denominator should be at least 1"
  | undefinedToInteger => "cannot convert float NaN to integer"
  | logarithmOfZero => "math domain error"
  | loneArgument => "'float' object is not iterable"
  | badInteger quoted =>
    "invalid literal for int() with base 10: " ++ String.ofList (quoted.toList.take longestQuote)
  | integerTooLong digits =>
    "Exceeds the limit (4300 digits) for integer string conversion: value has " ++
      toString digits ++ " digits; use sys.set_int_max_str_digits() to increase the limit"
  | integerTooLarge =>
    "Exceeds the limit (4300 digits) for integer string conversion; " ++
      "use sys.set_int_max_str_digits() to increase the limit"
  | negativePrecision => "Format specifier missing precision"
  | precisionTooBig => "precision too big"
  | precisionTooLong => "Too many decimal digits in format string"
  | aliasTarget name target =>
    "Alias '" ++ name ++ "' points to unknown unit '" ++ target ++ "'"
  | aliasShadows name => "Alias '" ++ name ++ "' shadows a unit symbol"
  | outOfRange => "result out of range"

end Fault

/-- Whatever stops a calculation. -/
inductive Failure
  | calc (error : CalcError)
  | fault (fault : Fault)
  deriving DecidableEq, Repr

/-- The outcome of a calculation. -/
abbrev Result (α : Type) := Except Failure α

/-- Stops with an error of the calculator. -/
def fail {α : Type} (e : CalcError) : Result α :=
  .error (.calc e)

/-- A fault stops a calculation. -/
def Fault.lift {α : Type} : Except Fault α → Result α
  | .ok a => .ok a
  | .error f => .error (.fault f)

instance : MonadLift (Except Fault) (Except Failure) := ⟨Fault.lift⟩

end Mensura
