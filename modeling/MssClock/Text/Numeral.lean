import MssClock.Text.Blank

/-!
# Numerals

Numbers are read from left to right.  At each character an invalid digit is
noticed before an overflow, so of the two the one that comes first in the text
decides.  One plus sign may come before the digits.

A register value is written in decimal, or in hexadecimal after `0x`; blanks
around it and underscores anywhere in it do not count.  A baud rate is a plain
decimal number that is read with a sign first.
-/

namespace MssClock

inductive Radix where
  | decimal
  | hexadecimal
  deriving DecidableEq, Repr

namespace Radix

def base : Radix → Nat
  | .decimal => 10
  | .hexadecimal => 16

def digit? (radix : Radix) (c : Char) : Option Nat :=
  let value :=
    if '0' ≤ c ∧ c ≤ '9' then some (c.toNat - '0'.toNat)
    else if 'a' ≤ c ∧ c ≤ 'f' then some (c.toNat - 'a'.toNat + 10)
    else if 'A' ≤ c ∧ c ≤ 'F' then some (c.toNat - 'A'.toNat + 10)
    else none
  value.filter fun n => n < radix.base

end Radix

inductive NumeralFault where
  | empty
  | invalidDigit
  | tooLarge
  | tooSmall
  deriving DecidableEq, Repr

def NumeralFault.message : NumeralFault → String
  | .empty => "cannot parse integer from empty string"
  | .invalidDigit => "invalid digit found in string"
  | .tooLarge => "number too large to fit in target type"
  | .tooSmall => "number too small to fit in target type"

/-- Reads digits onto `value`, which has to stay below `bound`. -/
def readDigits (radix : Radix) (bound : Nat) :
    (value : Nat) → List Char → Except NumeralFault Nat
  | value, [] => .ok value
  | value, c :: rest =>
      match radix.digit? c with
      | none => .error .invalidDigit
      | some digit =>
          let next := value * radix.base + digit
          if next < bound then readDigits radix bound next rest
          else .error .tooLarge

/-- Reads a number below `bound`.  A plus sign on its own is no number. -/
def readUnsigned (radix : Radix) (bound : Nat) :
    List Char → Except NumeralFault Nat
  | [] => .error .empty
  | '+' :: c :: rest => readDigits radix bound 0 (c :: rest)
  | text => readDigits radix bound 0 text

/-- Where the numbers of 64 bits with a sign end. -/
def signedBound : Nat := 0x8000000000000000

def readSigned : List Char → Except NumeralFault Int
  | '-' :: c :: rest =>
      match readDigits .decimal (signedBound + 1) 0 (c :: rest) with
      | .ok n => .ok (-n)
      | .error .tooLarge => .error .tooSmall
      | .error fault => .error fault
  | text => (readUnsigned .decimal signedBound text).map Int.ofNat

structure NumeralError where
  /-- The text that was read, without blanks and underscores. -/
  text : String
  fault : NumeralFault
  deriving DecidableEq, Repr

def NumeralError.message (e : NumeralError) : String :=
  "invalid value '" ++ e.text ++ "': " ++ e.fault.message

/-- The part of a register value that counts. -/
def significant (text : List Char) : List Char :=
  (trim text).filter fun c => c != '_'

/-- The radix of a significant text, and its digits. -/
def splitRadix : List Char → Radix × List Char
  | '0' :: 'x' :: digits => (.hexadecimal, digits)
  | '0' :: 'X' :: digits => (.hexadecimal, digits)
  | digits => (.decimal, digits)

def readWordChars (text : List Char) : Except NumeralError UInt32 :=
  let counted := significant text
  let (radix, digits) := splitRadix counted
  match readUnsigned radix UInt32.size digits with
  | .ok n => .ok (UInt32.ofNat n)
  | .error fault => .error ⟨String.ofList counted, fault⟩

/-- Reads the text of a register value. -/
def readWord (text : String) : Except NumeralError UInt32 :=
  readWordChars text.toList

inductive BaudError where
  | numeral (fault : NumeralFault)
  | outOfRange (n : Int)
  deriving DecidableEq, Repr

def BaudError.message : BaudError → String
  | .numeral fault => fault.message
  | .outOfRange n => s!"{n} is not in 0..=4294967295"

def readBaud (text : String) : Except BaudError UInt32 :=
  match readSigned text.toList with
  | .error fault => .error (.numeral fault)
  | .ok n =>
      if 0 ≤ n ∧ n < UInt32.size then .ok (UInt32.ofNat n.toNat)
      else .error (.outOfRange n)

end MssClock
