import MssClock.Word

/-!
# Three-bit divisor fields

Every divider of the clock tree is selected by a three-bit code.  Two
encodings exist: the normal one of the second stage, and the extended one of
the PLL output, in which the codes 3, 4 and 5 select twice the divisor.
-/

namespace MssClock

inductive Encoding where
  | normal
  | extended
  deriving DecidableEq, Repr

namespace Encoding

def ofExtended (extended : Bool) : Encoding :=
  if extended then .extended else .normal

/-- The three bits of a divisor field. -/
def fieldMask : Word := 0x7

/-- The divisor that a field selects; bits above the field are ignored. -/
def divisor (encoding : Encoding) (field : Word) : Word :=
  match encoding, (field &&& fieldMask).toNat with
  | _, 0 => 1
  | _, 1 => 2
  | _, 2 => 4
  | .normal, 3 => 4
  | .extended, 3 => 8
  | .normal, 4 => 8
  | .extended, 4 => 16
  | .normal, 5 => 16
  | _, _ => 32

/-- The divisor selected by the field that starts at bit `offset`.  Bits past
the end of the word read as zero, and the field is handed on as one byte. -/
def divisorAt (encoding : Encoding) (word offset : Word) : Word :=
  let shifted := if offset < 32 then word >>> offset else 0
  encoding.divisor (shifted &&& fieldMask).toUInt8.toUInt32

end Encoding

end MssClock
