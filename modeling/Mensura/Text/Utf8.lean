import Mensura.Text.Quoted

/-!
# Text as bytes

Decoding UTF-8.  A sequence that is none is reported with the bytes up to the one that broke it
and with the reason: a byte that starts nothing, one that does not continue what was started, or
the end of the data in the middle.
-/

set_option autoImplicit false

namespace Mensura
namespace Text

/-- Why bytes are no UTF-8. -/
inductive Utf8Reason
  | start | continuation | truncated
  deriving DecidableEq, Repr

/-- Where and why decoding failed: the bytes from `first` up to, but not including, `stop`, the
first of which is `byte`. -/
structure Utf8Error where
  first : Nat
  stop : Nat
  byte : Nat
  reason : Utf8Reason
  deriving DecidableEq, Repr

namespace Utf8Error

/-- The wording of a reason. -/
def reasonText : Utf8Reason → String
  | .start => "invalid start byte"
  | .continuation => "invalid continuation byte"
  | .truncated => "unexpected end of data"

/-- The wording of an error. -/
def message (e : Utf8Error) : String :=
  "'utf-8' codec can't decode " ++
    (if e.stop = e.first + 1 then
      "byte 0x" ++ String.ofList (hexDigits 2 e.byte) ++ " in position " ++ toString e.first
    else "bytes in position " ++ toString e.first ++ "-" ++ toString (e.stop - 1)) ++
    ": " ++ reasonText e.reason

end Utf8Error

/-- Reads `count` more bytes of a sequence of which `taken` are read, the next of them from `low`
to `high`, the others any continuation bytes.  Answers the code point and the length, or the
reason and the length of the faulty part (`none`: all that is left). -/
def continueSequence (low high : Nat) (value taken : Nat) :
    (count : Nat) → List UInt8 → Except (Utf8Reason × Option Nat) (Nat × Nat)
  | 0, _ => .ok (value, taken)
  | _ + 1, [] => .error (.truncated, none)
  | count + 1, b :: rest =>
    if low ≤ b.toNat && b.toNat ≤ high then
      continueSequence 0x80 0xBF (64 * value + b.toNat % 64) (taken + 1) count rest
    else .error (.continuation, some taken)

/-- The code point that bytes start with, and how many encode it. -/
def sequence (first : UInt8) (rest : List UInt8) :
    Except (Utf8Reason × Option Nat) (Nat × Nat) :=
  let b := first.toNat
  if b < 0x80 then .ok (b, 1)
  else if b < 0xC2 then .error (.start, some 1)
  else if b < 0xE0 then continueSequence 0x80 0xBF (b % 32) 1 1 rest
  else if b < 0xF0 then
    -- Neither a code point that takes two bytes, nor a surrogate.
    continueSequence (if b = 0xE0 then 0xA0 else 0x80) (if b = 0xED then 0x9F else 0xBF)
      (b % 16) 1 2 rest
  else if b < 0xF5 then
    -- Neither a code point that takes three bytes, nor one beyond the last.
    continueSequence (if b = 0xF0 then 0x90 else 0x80) (if b = 0xF4 then 0x8F else 0xBF)
      (b % 8) 1 3 rest
  else .error (.start, some 1)

/-- Decodes on from a position; `taken` bytes still belong to the last character. -/
def decodeFrom : (taken position : Nat) → List UInt8 → Except Utf8Error (List Char)
  | _, _, [] => .ok []
  | taken + 1, position, _ :: rest => decodeFrom taken (position + 1) rest
  | 0, position, b :: rest =>
    match sequence b rest with
    | .ok (n, length) => do
      let cs ← decodeFrom (length - 1) (position + 1) rest
      return Char.ofNat n :: cs
    | .error (reason, length) =>
      .error ⟨position, position + length.getD (1 + rest.length), b.toNat, reason⟩

/-- The text that bytes encode. -/
def decode (bytes : List UInt8) : Except Utf8Error (List Char) :=
  decodeFrom 0 0 bytes

/-- The bytes of a text. -/
def encode (s : String) : List UInt8 :=
  s.toUTF8.toList

end Text
end Mensura
