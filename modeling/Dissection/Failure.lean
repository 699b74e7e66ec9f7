import Dissection.Text.Character

/-!
# Failures

What stops the program before it has an outcome: the content of a file that is not UTF-8, and whole
numbers past the decimal limit.
-/

/-!
## UTF-8

Decoding of bytes, with the place and the kind of the first fault where they are not UTF-8.
-/

namespace Dissection.Text.Utf8

inductive Defect where
  | badStart
  | badContinuation
  | truncated
  deriving DecidableEq, Repr

/-- The first place that is not UTF-8: where it starts, its first byte, and its length. -/
structure Fault where
  start : Nat
  byte : UInt8
  length : Nat
  defect : Defect
  deriving DecidableEq, Repr

/-- The number of bytes that a first byte announces after itself, and the range of the first of
them, which keeps out overlong forms, surrogates and numbers past the last code point. -/
def continuations? (b : UInt8) : Option (Nat × UInt8 × UInt8) :=
  if 0xC2 ≤ b ∧ b ≤ 0xDF then some (1, 0x80, 0xBF)
  else if b = 0xE0 then some (2, 0xA0, 0xBF)
  else if b = 0xED then some (2, 0x80, 0x9F)
  else if 0xE1 ≤ b ∧ b ≤ 0xEF then some (2, 0x80, 0xBF)
  else if b = 0xF0 then some (3, 0x90, 0xBF)
  else if b = 0xF4 then some (3, 0x80, 0x8F)
  else if 0xF1 ≤ b ∧ b ≤ 0xF3 then some (3, 0x80, 0xBF)
  else none

/-- The sequence that has been begun: its start, its first byte, the bytes of it read so far, how
many are still missing, and the range of the next one. -/
structure Begun where
  start : Nat
  byte : UInt8
  read : Nat
  missing : Nat
  low : UInt8
  high : UInt8

/-- Reads bytes from a position on, and stops at the first fault. -/
def faultFrom? (position : Nat) (begun : Option Begun) : List UInt8 → Option Fault
  | [] => begun.map fun s => ⟨s.start, s.byte, s.read, .truncated⟩
  | b :: r =>
    match begun with
    | some s =>
      if s.low ≤ b ∧ b ≤ s.high then
        faultFrom? (position + 1)
          (if s.missing = 1 then none
            else some ⟨s.start, s.byte, s.read + 1, s.missing - 1, 0x80, 0xBF⟩) r
      else some ⟨s.start, s.byte, s.read, .badContinuation⟩
    | none =>
      if b < 0x80 then faultFrom? (position + 1) none r
      else match continuations? b with
        | none => some ⟨position, b, 1, .badStart⟩
        | some (missing, low, high) =>
          faultFrom? (position + 1) (some ⟨position, b, 1, missing, low, high⟩) r

def fault (bytes : ByteArray) : Fault :=
  (faultFrom? 0 none bytes.toList).getD ⟨0, 0, 1, .badStart⟩

def decode (bytes : ByteArray) : Except Fault String :=
  match String.fromUTF8? bytes with
  | some s => .ok s
  | none => .error (fault bytes)

def Defect.reason : Defect → String
  | .badStart => "invalid start byte"
  | .badContinuation => "invalid continuation byte"
  | .truncated => "unexpected end of data"

/-- One line that tells the place and the kind of the fault. -/
def Fault.message (f : Fault) : String :=
  let place :=
    if f.length = 1 then
      "byte 0x" ++ String.ofList (hexDigits 2 f.byte.toNat) ++ " in position " ++ toString f.start
    else
      "bytes in position " ++ toString f.start ++ "-" ++ toString (f.start + f.length - 1)
  "'utf-8' codec can't decode " ++ place ++ ": " ++ f.defect.reason

theorem decode_toByteArray (s : String) : decode s.toByteArray = .ok s := by
  have valid := s.isValidUTF8
  have read : String.fromUTF8? s.toByteArray = some s := by
    simp only [String.fromUTF8?, valid, dite_true, Option.some.injEq]
    rfl
  simp [decode, read]

end Dissection.Text.Utf8

/-!
## The decimal limit

A whole number of very many digits is neither read from decimal text nor written as decimal text.
-/

namespace Dissection.DecimalLimit

def maxDigits : Nat := 4300

/-- Tells the numbers that are written: those of no more digits than the limit. -/
def allows (n : Int) : Bool := n.natAbs < Nat.pow 10 maxDigits

/-- What reading and writing say alike when the limit stops them. -/
def exceeded : String :=
  "Exceeds the limit (" ++ toString maxDigits ++ " digits) for integer string conversion"

def advice : String := "; use sys.set_int_max_str_digits() to increase the limit"

def readingMessage (digits : Nat) : String :=
  exceeded ++ ": value has " ++ toString digits ++ " digits" ++ advice

def writingMessage : String := exceeded ++ advice

end Dissection.DecimalLimit

namespace Dissection

/-- The cause for which the program stops. -/
inductive Failure where
  | notUtf8 (fault : Text.Utf8.Fault)
  | numberTooLong (digits : Nat)
  | numberNotWritten
  deriving DecidableEq, Repr

def Failure.message : Failure → String
  | .notUtf8 fault => fault.message
  | .numberTooLong digits => DecimalLimit.readingMessage digits
  | .numberNotWritten => DecimalLimit.writingMessage

end Dissection
